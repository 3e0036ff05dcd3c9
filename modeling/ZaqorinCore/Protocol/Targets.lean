import ZaqorinCore.Base.Script
import ZaqorinCore.Text.Address
import ZaqorinCore.Agent.Kinds
import ZaqorinCore.Server.Kinds

/-!
# Addresses as targets

The server reads the four parts of a target with `int`, the agent with `strconv.Atoi`, and the text
itself goes to the packet filter. Each of the two readers takes more than plain numerals: blanks,
signs, underscores, digits of other scripts and leading zeros on the server, signs on the agent.
A target is treated alike, and as the address that it renders, exactly when it is not such a
decorated address (`targets_agree_iff`).
-/

namespace ZaqorinCore.Protocol

open Base Text Server

/-! ## Splitting a text and its bytes -/

theorem not_mem_of_mem_splitOn {α : Type} [BEq α] [LawfulBEq α] {a : α} {xs l : List α}
    (h : l ∈ xs.splitOn a) : a ∉ l := by
  induction xs generalizing l with
  | nil =>
    rw [List.splitOn_nil, List.mem_singleton] at h
    simp [h]
  | cons x xs ih =>
    rw [List.splitOn_cons_eq_if_modifyHead] at h
    split at h
    · rcases List.mem_cons.mp h with rfl | h
      · simp
      · exact ih h
    · rename_i hx
      obtain ⟨first, rest, hsplit⟩ := List.exists_cons_of_ne_nil (List.splitOn_ne_nil a xs)
      rw [hsplit, List.modifyHead_cons] at h
      rcases List.mem_cons.mp h with rfl | h
      · have hfirst : a ∉ first := ih (hsplit ▸ List.mem_cons_self)
        have hne : a ≠ x := by
          rintro rfl
          exact hx (by simp)
        simp [hne, hfirst]
      · exact ih (hsplit ▸ List.mem_cons_of_mem _ h)

theorem utf8_intercalate (parts : List Str) :
    utf8 (List.intercalate ['.'] parts) = List.intercalate [46] (parts.map utf8) := by
  induction parts with
  | nil => rfl
  | cons p parts ih =>
    cases parts with
    | nil => simp
    | cons q parts =>
      have hdot : utf8 ['.'] = [46] := by decide
      rw [List.intercalate_cons_cons, utf8_append, utf8_append, ih, hdot]
      simp

/-- The agent splits the bytes where the server splits the text. -/
theorem splitOn_utf8 (s : Str) : (utf8 s).splitOn 46 = (s.splitOn '.').map utf8 := by
  have hdots : ∀ l ∈ (s.splitOn '.').map utf8, (46 : UInt8) ∉ l := by
    intro l hl
    obtain ⟨p, hp, rfl⟩ := List.mem_map.mp hl
    have hdot : UInt8.ofNat '.'.toNat = 46 := by decide
    rw [← hdot, mem_utf8_iff (by decide)]
    exact not_mem_of_mem_splitOn hp
  have hne : (s.splitOn '.').map utf8 ≠ [] := by
    simp
  calc (utf8 s).splitOn 46
      = (utf8 (List.intercalate ['.'] (s.splitOn '.'))).splitOn 46 := by
        rw [List.intercalate_splitOn]
    _ = (List.intercalate [46] ((s.splitOn '.').map utf8)).splitOn 46 := by rw [utf8_intercalate]
    _ = (s.splitOn '.').map utf8 := List.splitOn_intercalate 46 hdots hne

/-! ## Canonical addresses -/

/-- The text is what an address of four bytes renders to. -/
def CanonicalAddress (s : Str) : Prop := ∃ ip : Bytes, ip.length = 4 ∧ s = dotted ip

theorem splitOn_dotted {ip : Bytes} (h : ip ≠ []) :
    (dotted ip).splitOn '.' = ip.map fun b => Nat.toDigits 10 b.toNat := by
  have hdots : ∀ l ∈ ip.map (fun b => itoa b.toNat), '.' ∉ l := by
    intro l hl hdot
    obtain ⟨b, -, rfl⟩ := List.mem_map.mp hl
    have := isDigit_of_mem_toDigits (n := b.toNat) hdot
    exact absurd this (by decide)
  exact List.splitOn_intercalate '.' hdots (by simpa using h)

theorem exists_bytes {parts : List Str} (h : ∀ p ∈ parts, ∃ n ≤ 255, p = Nat.toDigits 10 n) :
    ∃ ip : Bytes, parts = ip.map fun b => Nat.toDigits 10 b.toNat := by
  induction parts with
  | nil => exact ⟨[], rfl⟩
  | cons p parts ih =>
    obtain ⟨n, hn, rfl⟩ := h p List.mem_cons_self
    obtain ⟨ip, rfl⟩ := ih fun q hq => h q (List.mem_cons_of_mem _ hq)
    have hbyte : (UInt8.ofNat n).toNat = n := toNat_ofNat_byte (by omega)
    exact ⟨UInt8.ofNat n :: ip, by rw [List.map_cons, hbyte]⟩

/-- An address is canonical when its parts are the numerals of four bytes. -/
theorem canonicalAddress_iff {s : Str} : CanonicalAddress s ↔
    (s.splitOn '.').length = 4 ∧ ∀ p ∈ s.splitOn '.', ∃ n ≤ 255, p = Nat.toDigits 10 n := by
  constructor
  · rintro ⟨ip, hip, rfl⟩
    have hne : ip ≠ [] := by
      rintro rfl
      cases hip
    rw [splitOn_dotted hne]
    refine ⟨by simpa using hip, ?_⟩
    intro p hp
    obtain ⟨b, -, rfl⟩ := List.mem_map.mp hp
    have := b.toNat_lt
    exact ⟨b.toNat, by omega, rfl⟩
  · rintro ⟨hlength, hparts⟩
    obtain ⟨ip, hip⟩ := exists_bytes hparts
    refine ⟨ip, by simpa [hip] using hlength, ?_⟩
    have hjoin : List.intercalate ['.'] (s.splitOn '.') = s := List.intercalate_splitOn '.'
    rw [← hjoin, hip]
    rfl

/-! ## What each side reads -/

/-- `int` reads the parts as these four octets. -/
def ReadsPython (s : Str) (o₁ o₂ o₃ o₄ : Nat) : Prop :=
  (s.splitOn '.').map pyInt = [some (o₁ : Int), some (o₂ : Int), some (o₃ : Int), some (o₄ : Int)] ∧
    o₁ ≤ 255 ∧ o₂ ≤ 255 ∧ o₃ ≤ 255 ∧ o₄ ≤ 255

/-- `strconv.Atoi` reads the four parts as octets, and none starts with a superfluous zero. -/
def ReadsGo (s : Str) : Prop :=
  (s.splitOn '.').length = 4 ∧ ∀ p ∈ s.splitOn '.',
    (∃ n : Nat, n ≤ 255 ∧ atoi (utf8 p) = some (n : Int)) ∧ (p.head? = some '0' → p.length = 1)

/-- The address is outside 127.0.0.0/8 and 224.0.0.0/4, and neither 0.0.0.0 nor 255.255.255.255. -/
def OutsideDenied (o₁ o₂ o₃ o₄ : Nat) : Prop :=
  o₁ ≠ 127 ∧ ¬ (224 ≤ o₁ ∧ o₁ ≤ 239) ∧ ¬ (o₁ = 0 ∧ o₂ = 0 ∧ o₃ = 0 ∧ o₄ = 0) ∧
    ¬ (o₁ = 255 ∧ o₂ = 255 ∧ o₃ = 255 ∧ o₄ = 255)

theorem ipToInt_eq (o₁ : Nat) {o₂ o₃ o₄ : Nat} (h₂ : o₂ ≤ 255) (h₃ : o₃ ≤ 255) (h₄ : o₄ ≤ 255) :
    ipToInt o₁ o₂ o₃ o₄ = o₁ * 16777216 + o₂ * 65536 + o₃ * 256 + o₄ := by
  have hlow : o₃ <<< 8 + o₄ = o₃ <<< 8 ||| o₄ := Nat.shiftLeft_add_eq_or_of_lt (by omega) o₃
  have hmid : o₂ <<< 16 + (o₃ <<< 8 + o₄) = o₂ <<< 16 ||| (o₃ <<< 8 + o₄) :=
    Nat.shiftLeft_add_eq_or_of_lt (by rw [Nat.shiftLeft_eq]; omega) o₂
  have hhigh : o₁ <<< 24 + (o₂ <<< 16 + (o₃ <<< 8 + o₄)) =
      o₁ <<< 24 ||| (o₂ <<< 16 + (o₃ <<< 8 + o₄)) :=
    Nat.shiftLeft_add_eq_or_of_lt (by simp only [Nat.shiftLeft_eq]; omega) o₁
  rw [ipToInt, Nat.or_assoc, Nat.or_assoc, ← hlow, ← hmid, ← hhigh]
  simp only [Nat.shiftLeft_eq]
  omega

theorem checkDangerousSingle_iff {addr : Nat} : checkDangerousSingle false addr = .ok () ↔
    addr ≠ 0 ∧ addr ≠ ipToInt 255 255 255 255 ∧
      ∀ r ∈ denyRanges, ¬ (r.2.2.1 ≤ addr ∧ addr ≤ r.2.2.2) := by
  rw [checkDangerousSingle, if_neg (by decide)]
  by_cases hzero : addr = 0
  · simp [hzero]
  by_cases hbroadcast : addr = ipToInt 255 255 255 255
  · rw [if_neg hzero, if_pos hbroadcast]
    simp [hbroadcast]
  rw [if_neg hzero, if_neg hbroadcast, and_iff_right hzero, and_iff_right hbroadcast]
  cases hfind : denyRanges.find? fun r => r.2.2.1 ≤ addr && addr ≤ r.2.2.2 with
  | none =>
    have hnone := List.find?_eq_none.mp hfind
    simpa using hnone
  | some r =>
    have hmem := List.mem_of_find?_eq_some hfind
    have hin := List.find?_some hfind
    simp only [Bool.and_eq_true, decide_eq_true_eq] at hin
    simp only [reduceCtorEq, false_iff]
    exact fun h => h r hmem hin

/-- Without the override the deny list is the four ranges. -/
theorem checkDangerousSingle_ok_iff {o₁ o₂ o₃ o₄ : Nat} (h₁ : o₁ ≤ 255) (h₂ : o₂ ≤ 255)
    (h₃ : o₃ ≤ 255) (h₄ : o₄ ≤ 255) :
    checkDangerousSingle false (ipToInt o₁ o₂ o₃ o₄) = .ok () ↔ OutsideDenied o₁ o₂ o₃ o₄ := by
  have haddr := ipToInt_eq o₁ h₂ h₃ h₄
  have hbroadcast := ipToInt_eq 255 (Nat.le_refl 255) (Nat.le_refl 255) (Nat.le_refl 255)
  have hloopback := ipToInt_eq 127 (Nat.zero_le 255) (Nat.zero_le 255) (Nat.zero_le 255)
  have hloopback' := ipToInt_eq 127 (Nat.le_refl 255) (Nat.le_refl 255) (Nat.le_refl 255)
  have hmulticast := ipToInt_eq 224 (Nat.zero_le 255) (Nat.zero_le 255) (Nat.zero_le 255)
  have hmulticast' := ipToInt_eq 239 (Nat.le_refl 255) (Nat.le_refl 255) (Nat.le_refl 255)
  rw [checkDangerousSingle_iff, OutsideDenied]
  simp only [denyRanges, List.forall_mem_cons, List.not_mem_nil, false_implies, implies_true,
    and_true]
  omega

theorem parseOctet_ok_iff {target part : Str} {n : Nat} :
    Server.parseOctet target part = .ok n ↔ pyInt part = some (n : Int) ∧ n ≤ 255 := by
  unfold Server.parseOctet
  cases hread : pyInt part with
  | none => simp
  | some v =>
    dsimp only
    by_cases hrange : 0 ≤ v ∧ v ≤ 255
    · rw [if_pos hrange]
      simp only [Except.ok.injEq, Option.some.injEq]
      omega
    · rw [if_neg hrange]
      simp only [reduceCtorEq, Option.some.injEq, false_iff]
      omega

theorem parseIpv4_ok_iff {s : Str} {o₁ o₂ o₃ o₄ : Nat} :
    parseIpv4 s = .ok (o₁, o₂, o₃, o₄) ↔ ReadsPython s o₁ o₂ o₃ o₄ := by
  unfold parseIpv4 ReadsPython
  split
  · rename_i p₁ p₂ p₃ p₄ hparts
    rw [hparts]
    constructor
    · intro h
      obtain ⟨a₁, h₁, h⟩ := bind_eq_ok.mp h
      obtain ⟨a₂, h₂, h⟩ := bind_eq_ok.mp h
      obtain ⟨a₃, h₃, h⟩ := bind_eq_ok.mp h
      obtain ⟨a₄, h₄, h⟩ := bind_eq_ok.mp h
      cases h
      rw [parseOctet_ok_iff] at h₁ h₂ h₃ h₄
      simp [h₁, h₂, h₃, h₄]
    · rintro ⟨hread, h₁, h₂, h₃, h₄⟩
      simp only [List.map_cons, List.map_nil, List.cons.injEq, and_true] at hread
      obtain ⟨hr₁, hr₂, hr₃, hr₄⟩ := hread
      rw [parseOctet_ok_iff.mpr ⟨hr₁, h₁⟩, parseOctet_ok_iff.mpr ⟨hr₂, h₂⟩,
        parseOctet_ok_iff.mpr ⟨hr₃, h₃⟩, parseOctet_ok_iff.mpr ⟨hr₄, h₄⟩]
      rfl
  · rename_i hparts
    constructor
    · intro h
      cases h
    · rintro ⟨hread, -⟩
      exfalso
      have hlength := congrArg List.length hread
      rw [List.length_map] at hlength
      obtain ⟨p₁, p₂, p₃, p₄, hfour⟩ := List.length_eq_four.mp hlength
      exact hparts p₁ p₂ p₃ p₄ hfour

/-- The kinds whose target is an address. -/
def addressKinds : List Kind := [.blockIp, .tarpitIp]

/-- `validate_target` without the override of the operator. -/
def ServerAccepts (k : Kind) (s : Str) : Prop := validateTarget false k.name s = .ok ()

theorem serverAccepts_iff {k : Kind} (hk : k ∈ addressKinds) {s : Str} : ServerAccepts k s ↔
    ∃ o₁ o₂ o₃ o₄, ReadsPython s o₁ o₂ o₃ o₄ ∧ OutsideDenied o₁ o₂ o₃ o₄ := by
  have hkind : kindOfName k.name = some k ∧ k.targetShape = .ipv4 := by
    revert k
    decide
  unfold ServerAccepts validateTarget
  simp only [hkind]
  constructor
  · intro h
    obtain ⟨⟨o₁, o₂, o₃, o₄⟩, hparse, hcheck⟩ := bind_eq_ok.mp h
    rw [parseIpv4_ok_iff] at hparse
    obtain ⟨hread, h₁, h₂, h₃, h₄⟩ := hparse
    exact ⟨o₁, o₂, o₃, o₄, ⟨hread, h₁, h₂, h₃, h₄⟩,
      (checkDangerousSingle_ok_iff h₁ h₂ h₃ h₄).mp hcheck⟩
  · rintro ⟨o₁, o₂, o₃, o₄, hread, houtside⟩
    obtain ⟨-, h₁, h₂, h₃, h₄⟩ := id hread
    apply bind_eq_ok.mpr
    exact ⟨(o₁, o₂, o₃, o₄), parseIpv4_ok_iff.mpr hread,
      (checkDangerousSingle_ok_iff h₁ h₂ h₃ h₄).mpr houtside⟩

theorem utf8EncodeChar_ne_nil (c : Char) : String.utf8EncodeChar c ≠ [] := by
  intro h
  have hlength := congrArg List.length h
  rw [String.length_utf8EncodeChar, List.length_nil] at hlength
  have := Char.utf8Size_pos c
  omega

theorem utf8_eq_nil {s : Str} : utf8 s = [] ↔ s = [] := by
  cases s with
  | nil => simp
  | cons c s => simp [utf8_cons]

/-- The test for a leading zero, on the bytes and on the text. -/
theorem leadingZero_utf8 (p : Str) :
    ¬ (1 < (utf8 p).length ∧ (utf8 p).head? = some 48) ↔ (p.head? = some '0' → p.length = 1) := by
  cases p with
  | nil => simp
  | cons c rest =>
    by_cases hc : c = '0'
    · have hcons : utf8 (c :: rest) = 48 :: utf8 rest := by
        rw [utf8_cons, hc]
        rfl
      rw [hcons]
      simp [hc, utf8_eq_nil]
    · -- no other character has the byte of `'0'`
      have hbyte : (utf8 (c :: rest)).head? ≠ some 48 := by
        intro h
        rw [utf8_cons, List.head?_append_of_ne_nil _ (utf8EncodeChar_ne_nil c)] at h
        have hmem : UInt8.ofNat '0'.toNat ∈ utf8 [c] := by
          rw [utf8_cons, utf8_nil, List.append_nil]
          exact List.mem_of_mem_head? h
        rw [mem_utf8_iff (by decide), List.mem_singleton] at hmem
        exact hc hmem.symm
      simp [hbyte, hc]

/-- `IsValidIPv4` -/
def AgentAccepts (s : Str) : Prop := Agent.isValidIPv4 (utf8 s) = true

theorem agentAccepts_iff {s : Str} : AgentAccepts s ↔ ReadsGo s := by
  unfold AgentAccepts ReadsGo
  rw [Agent.isValidIPv4_iff, splitOn_utf8, List.length_map, List.forall_mem_map]
  apply and_congr_right
  intro _
  apply forall₂_congr
  intro p _
  rw [Agent.validOctet_iff]
  apply and_congr_right
  intro _
  exact leadingZero_utf8 p

/-! ## Agreement -/

/-- The agent takes what the server sends; both take only canonical addresses; and the address is
outside the denied ranges. -/
structure TargetsAgree (s : Str) : Prop where
  agent : ∀ k ∈ addressKinds, ServerAccepts k s → AgentAccepts s
  server_canonical : ∀ k ∈ addressKinds, ServerAccepts k s → CanonicalAddress s
  agent_canonical : AgentAccepts s → CanonicalAddress s
  outside : ∀ k ∈ addressKinds, ServerAccepts k s → ∀ a b c d : UInt8, s = dotted [a, b, c, d] →
    OutsideDenied a.toNat b.toNat c.toNat d.toNat

/-- Some part is no plain numeral, but one of the two readers takes the parts for an address: Python
for one that is not denied, or Go. -/
def Decorated (s : Str) : Prop :=
  (∃ p ∈ s.splitOn '.', plainNumeral p = false) ∧
    ((∃ o₁ o₂ o₃ o₄, ReadsPython s o₁ o₂ o₃ o₄ ∧ OutsideDenied o₁ o₂ o₃ o₄) ∨ ReadsGo s)

theorem plain_of_canonical {s : Str} (h : CanonicalAddress s) :
    ∀ p ∈ s.splitOn '.', plainNumeral p = true := by
  intro p hp
  obtain ⟨n, -, rfl⟩ := (canonicalAddress_iff.mp h).2 p hp
  exact plainNumeral_iff_toDigits.mpr ⟨n, rfl⟩

/-- The parts that Python reads, one by one. -/
theorem ReadsPython.parts {s : Str} {o₁ o₂ o₃ o₄ : Nat} (h : ReadsPython s o₁ o₂ o₃ o₄) :
    (s.splitOn '.').length = 4 ∧
      ∀ p ∈ s.splitOn '.', ∃ n : Nat, n ≤ 255 ∧ pyInt p = some (n : Int) := by
  obtain ⟨hread, h₁, h₂, h₃, h₄⟩ := h
  have hlength := congrArg List.length hread
  rw [List.length_map] at hlength
  refine ⟨hlength, ?_⟩
  intro p hp
  have hmem : pyInt p ∈ (s.splitOn '.').map pyInt := List.mem_map_of_mem hp
  rw [hread] at hmem
  simp only [List.mem_cons, List.not_mem_nil, or_false] at hmem
  rcases hmem with h | h | h | h
  · exact ⟨o₁, h₁, h⟩
  · exact ⟨o₂, h₂, h⟩
  · exact ⟨o₃, h₃, h⟩
  · exact ⟨o₄, h₄, h⟩

theorem ReadsPython.canonical {s : Str} {o₁ o₂ o₃ o₄ : Nat} (h : ReadsPython s o₁ o₂ o₃ o₄)
    (hplain : ∀ p ∈ s.splitOn '.', plainNumeral p = true) : CanonicalAddress s := by
  obtain ⟨hlength, hparts⟩ := h.parts
  refine canonicalAddress_iff.mpr ⟨hlength, ?_⟩
  intro p hp
  obtain ⟨n, hn, hread⟩ := hparts p hp
  exact ⟨n, hn, toDigits_of_pyInt (hplain p hp) hread⟩

theorem ReadsGo.canonical {s : Str} (h : ReadsGo s)
    (hplain : ∀ p ∈ s.splitOn '.', plainNumeral p = true) : CanonicalAddress s := by
  refine canonicalAddress_iff.mpr ⟨h.1, ?_⟩
  intro p hp
  obtain ⟨⟨n, hn, hread⟩, -⟩ := h.2 p hp
  exact ⟨n, hn, toDigits_of_atoi (hplain p hp) hread⟩

/-- The agent takes every canonical address. -/
theorem readsGo_of_canonical {s : Str} (h : CanonicalAddress s) : ReadsGo s := by
  obtain ⟨hlength, hparts⟩ := canonicalAddress_iff.mp h
  refine ⟨hlength, ?_⟩
  intro p hp
  obtain ⟨n, hn, rfl⟩ := hparts p hp
  refine ⟨⟨n, hn, atoi_toDigits hn⟩, ?_⟩
  intro hhead
  rw [head?_toDigits hhead]
  rfl

/-- The octets that Python reads from a canonical address are the ones it renders. -/
theorem ReadsPython.octets {o₁ o₂ o₃ o₄ : Nat} {a b c d : UInt8}
    (h : ReadsPython (dotted [a, b, c, d]) o₁ o₂ o₃ o₄) :
    o₁ = a.toNat ∧ o₂ = b.toNat ∧ o₃ = c.toNat ∧ o₄ = d.toNat := by
  have hbyte : ∀ x : UInt8, pyInt (Nat.toDigits 10 x.toNat) = some (x.toNat : Int) := by
    intro x
    have := x.toNat_lt
    exact pyInt_toDigits (by omega)
  have hread := h.1
  rw [splitOn_dotted (by simp)] at hread
  simp only [List.map_cons, List.map_nil, hbyte, List.cons.injEq, Option.some.injEq,
    and_true] at hread
  omega

/-- The validators agree on a target exactly when it is no decorated address. -/
theorem targets_agree_iff (s : Str) : TargetsAgree s ↔ ¬ Decorated s := by
  have hblock : Kind.blockIp ∈ addressKinds := by decide
  constructor
  · rintro h ⟨⟨p, hp, hplain⟩, hread⟩
    have hcanonical : CanonicalAddress s := by
      rcases hread with hpython | hgo
      · exact h.server_canonical _ hblock ((serverAccepts_iff hblock).mpr hpython)
      · exact h.agent_canonical (agentAccepts_iff.mpr hgo)
    rw [plain_of_canonical hcanonical p hp] at hplain
    cases hplain
  · intro h
    have hplain : ((∃ o₁ o₂ o₃ o₄, ReadsPython s o₁ o₂ o₃ o₄ ∧ OutsideDenied o₁ o₂ o₃ o₄) ∨
        ReadsGo s) → ∀ p ∈ s.splitOn '.', plainNumeral p = true := by
      intro hread p hp
      by_contra hdecorated
      exact h ⟨⟨p, hp, by simpa using hdecorated⟩, hread⟩
    have hserver : ∀ k ∈ addressKinds, ServerAccepts k s → CanonicalAddress s := by
      intro k hk haccept
      have hpython := (serverAccepts_iff hk).mp haccept
      obtain ⟨o₁, o₂, o₃, o₄, hread, -⟩ := id hpython
      exact hread.canonical (hplain (.inl hpython))
    refine ⟨fun k hk haccept => ?_, hserver, fun haccept => ?_, fun k hk haccept a b c d hs => ?_⟩
    · exact agentAccepts_iff.mpr (readsGo_of_canonical (hserver k hk haccept))
    · have hgo := agentAccepts_iff.mp haccept
      exact hgo.canonical (hplain (.inr hgo))
    · obtain ⟨o₁, o₂, o₃, o₄, hread, houtside⟩ := (serverAccepts_iff hk).mp haccept
      rw [hs] at hread
      obtain ⟨rfl, rfl, rfl, rfl⟩ := hread.octets
      exact houtside

/-- The server takes an address with a leading zero in one part, the agent refuses it. -/
theorem leading_zero_disagrees : ¬ TargetsAgree "8.8.8.08".toList := by
  intro h
  have hserver : ServerAccepts .blockIp "8.8.8.08".toList := by
    unfold ServerAccepts
    decide
  have hagent : ¬ AgentAccepts "8.8.8.08".toList := by
    unfold AgentAccepts
    decide
  exact hagent (h.agent _ (by decide) hserver)

end ZaqorinCore.Protocol
