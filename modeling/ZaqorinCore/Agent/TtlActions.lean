import ZaqorinCore.Base.Run
import ZaqorinCore.Text.Search
import ZaqorinCore.Agent.Kinds

/-!
# Containment rules with a time to live

`TarpitIPWithTTL` and `IsolateHostWithTTL` of the package `kinds` insert an nft rule whose comment
is built from the target, and start a timer. When the timer fires, `removeRuleAfter` lists the
chain and deletes the first rule whose line contains that comment. `nft insert` puts a rule in
front of the older ones, so the first line may be the rule of a later call: of the same target, or
of one whose comment contains this one. `ttl_removal_exact_iff` says exactly which runs have no
such removal.

The two nft commands of a removal are one step here. A handle is never given twice, so the deletion
by handle commutes with insertions that come between the two. It does not commute with another
removal that has listed the same rule: the second deletion then fails and leaves its rule, where a
step here lists the chain after the first. Runs with such a pair are not among those of this module.
-/

namespace ZaqorinCore.Agent.Ttl

open Base Text

def maxContainmentTTLSeconds : Int := 30 * 24 * 60 * 60

/-- The chains of the table `inet zaqorin`. -/
inductive Chain
  | input
  | output
  deriving DecidableEq

/-- The two actions. -/
inductive Containment
  | tarpitIP
  | isolateHost
  deriving DecidableEq

namespace Containment

/-- The prefix of the errors. -/
def op : Containment → Bytes
  | tarpitIP => lit "tarpit_ip"
  | isolateHost => lit "isolate_host"

def chain : Containment → Chain
  | tarpitIP => .input
  | isolateHost => .output

def label : Containment → Bytes
  | tarpitIP => lit "zaqorin-tarpit-"
  | isolateHost => lit "zaqorin-isolate-"

/-- The first guard of the action. -/
def accepts : Containment → Bytes → Bool
  | tarpitIP, ip => isValidIPv4 ip
  | isolateHost, hostID => trimSpace hostID != []

end Containment

/-- The replacements, and then at most 80 bytes. -/
def safeComment (s : Bytes) : Bytes :=
  (s.map fun b => if b = 10 ∨ b = 13 ∨ b = 34 ∨ b = 39 then 95 else b).take 80

/-! ## Installing a rule -/

/-- The errors of the actions. -/
inductive Fault
  | target (kind : Containment) (target : Bytes)
  | ttl (kind : Containment)
  | nftNotFound (kind : Containment) (err : Bytes)
  | insertRule (kind : Containment) (err output : Bytes)

/-- The text of an error, for a rendering of `%q`. -/
def Fault.text (quote : Bytes → Bytes) : Fault → Bytes
  | target .tarpitIP ip => lit "tarpit_ip: invalid IPv4 address " ++ quote ip
  | target .isolateHost _ => lit "isolate_host: empty host id"
  | ttl kind => kind.op ++ lit ": ttl must be between 1 and 2592000 seconds"
  | nftNotFound kind err => kind.op ++ lit ": nft binary not found: " ++ err
  | insertRule kind err output =>
    kind.op ++ lit ": nft insert rule: " ++ err ++ lit ": " ++ trimSpace output

/-- A rule that an action asks nft to insert, with its time to live. -/
structure Order where
  kind : Containment
  target : Bytes
  ttl : Int
  valid : kind.accepts target = true

def Order.comment (o : Order) : Bytes := o.kind.label ++ safeComment o.target

/-- What the system answers: the error of `exec.LookPath`, and the error and the output of
`nft insert rule`. -/
structure Nft where
  missing : Option Bytes := none
  refused : Option (Bytes × Bytes) := none

/-- The body that the two actions share; `none` is a dry run. -/
def containWithTTL (kind : Containment) (target : Bytes) (ttl : Int) (dryRun : Bool) (nft : Nft) :
    Except Fault (Option Order) :=
  if hvalid : kind.accepts target = true then
    if ttl ≤ 0 ∨ ttl > maxContainmentTTLSeconds then .error (.ttl kind)
    else
      match nft.missing with
      | some err => .error (.nftNotFound kind err)
      | none =>
        if dryRun then .ok none
        else
          match nft.refused with
          | some (err, output) => .error (.insertRule kind err output)
          | none => .ok (some ⟨kind, target, ttl, hvalid⟩)
  else .error (.target kind target)

def tarpitIPWithTTL : Bytes → Int → Bool → Nft → Except Fault (Option Order) :=
  containWithTTL .tarpitIP

def isolateHostWithTTL : Bytes → Int → Bool → Nft → Except Fault (Option Order) :=
  containWithTTL .isolateHost

/-! ## The chains -/

/-- A rule of a chain. -/
structure Rule where
  handle : Nat
  order : Order

def decimal (n : Nat) : Bytes := utf8 (Nat.toDigits 10 n)

/-- What a rule does, as nft prints it with the counters of the rule. -/
def Rule.statement (r : Rule) (packets bytes : Nat) : Bytes :=
  match r.order.kind with
  | .tarpitIP =>
    lit "ip saddr " ++ r.order.target ++ lit " limit rate 1/second burst 1 packets drop"
  | .isolateHost =>
    lit "counter packets " ++ decimal packets ++ lit " bytes " ++ decimal bytes ++ lit " drop"

/-- The mark before a handle. -/
def handleMark : Bytes := lit " # handle "

/-- The line of a rule: its statement, its comment in quotes, and its handle. -/
def Rule.line (counters : Nat → Nat × Nat) (r : Rule) : Bytes :=
  r.statement (counters r.handle).1 (counters r.handle).2 ++ lit " comment " ++ 34 ::
    (r.order.comment ++ 34 :: (handleMark ++ decimal r.handle))

/-- `nft -a list chain`, with the counters that the rules have. -/
def listChain (counters : Nat → Nat × Nat) (rules : List Rule) : Bytes :=
  List.intercalate [10] (rules.map (Rule.line counters) ++ [[]])

/-- The loop of `removeRuleAfter`: the handle that it deletes. -/
def findHandle (comment : Bytes) : List Bytes → Option Bytes
  | [] => none
  | line :: rest =>
    if contains line comment then
      match lastIndexOf handleMark line with
      | none => findHandle comment rest
      | some idx =>
        let handle := trimSpace (line.drop (idx + handleMark.length))
        if handle = [] then findHandle comment rest else some handle
    else findHandle comment rest

/-- The chain after `removeRuleAfter`. -/
def removeRule (comment : Bytes) (counters : Nat → Nat × Nat) (rules : List Rule) : List Rule :=
  match findHandle comment ((listChain counters rules).splitOn 10) with
  | none => rules
  | some handle => rules.filter fun r => decimal r.handle ≠ handle

/-! ## The agent -/

/-- A goroutine of `removeRuleAfter` that waits. The handle is the one of the rule that its call
installed; the code does not know it. -/
structure Timer where
  handle : Nat
  order : Order
  due : Nat

/-- The chains with their rules in the order of the listing, the next handle, the clock, and the
timers, the newest first. -/
structure State where
  rules : Chain → List Rule := fun _ => []
  next : Nat := 1
  now : Nat := 0
  pending : List Timer := []

namespace State

/-- `nft insert rule` puts the rule first, and the timer starts. -/
def install (s : State) (o : Order) : State :=
  { s with
    rules := Function.update s.rules o.kind.chain (⟨s.next, o⟩ :: s.rules o.kind.chain)
    next := s.next + 1
    pending := ⟨s.next, o, s.now + o.ttl.toNat * 10 ^ 9⟩ :: s.pending }

/-- The state after an action returned. -/
def after (s : State) : Except Fault (Option Order) → State
  | .ok (some o) => s.install o
  | _ => s

/-- The timer fires. -/
def expire (s : State) (timer : Timer) (counters : Nat → Nat × Nat) : State :=
  { s with
    rules := Function.update s.rules timer.order.kind.chain
      (removeRule timer.order.comment counters (s.rules timer.order.kind.chain))
    pending := s.pending.filter fun other => other.handle ≠ timer.handle }

def timerOf (s : State) (handle : Nat) : Option Timer :=
  s.pending.find? fun timer => timer.handle = handle

end State

inductive Action
  | tarpitIP (ip : Bytes) (ttl : Int) (dryRun : Bool) (nft : Nft)
  | isolateHost (hostID : Bytes) (ttl : Int) (dryRun : Bool) (nft : Nft)
  | pass (ns : Nat)
  | expire (handle : Nat) (counters : Nat → Nat × Nat)

/-- A timer can fire at any moment from its due time on. -/
def step (s : State) : Action → Option State
  | .tarpitIP ip ttl dryRun nft => some (s.after (tarpitIPWithTTL ip ttl dryRun nft))
  | .isolateHost hostID ttl dryRun nft => some (s.after (isolateHostWithTTL hostID ttl dryRun nft))
  | .pass ns => some { s with now := s.now + ns }
  | .expire handle counters =>
    match s.timerOf handle with
    | none => none
    | some timer => if timer.due ≤ s.now then some (s.expire timer counters) else none

/-- A timer that fires deletes the rule that its call installed, which is there and whose time to
live is over, and no other. -/
def Exact (s : State) : Action → Prop
  | .expire handle counters => ∀ timer, s.timerOf handle = some timer → timer.due ≤ s.now ∧
      (∃ r ∈ s.rules timer.order.kind.chain, r.handle = handle) ∧
      ∀ chain, (s.expire timer counters).rules chain =
        (s.rules chain).filter fun r => r.handle ≠ handle
  | _ => True

/-- When a timer fires, no later call for the same chain, with a comment that contains the one of
the timer, still waits for its own timer. -/
def Unshadowed (s : State) : Action → Prop
  | .expire handle _ => ∀ timer ∈ s.pending, timer.handle = handle → ∀ later ∈ s.pending,
      later.order.kind.chain = timer.order.kind.chain → handle < later.handle →
        ¬ timer.order.comment <:+: later.order.comment
  | _ => True

/-! ## The line of a rule -/

/-- A byte that ends no line, closes no comment and starts no label. -/
def Plain (b : UInt8) : Prop := b ≠ 10 ∧ b ≠ 34 ∧ b ≠ 122

instance : DecidablePred Plain := fun _ => inferInstanceAs (Decidable (_ ∧ _))

theorem plain_of_le {b : UInt8} (h : 43 ≤ b.toNat ∧ b.toNat ≤ 57) : Plain b := by
  refine ⟨?_, ?_, ?_⟩ <;> rintro rfl <;> revert h <;> decide

theorem mem_decimal {n : Nat} {b : UInt8} (h : b ∈ decimal n) : 48 ≤ b.toNat ∧ b.toNat ≤ 57 := by
  obtain ⟨c, hc, hb⟩ := List.mem_flatMap.mp h
  have hdigit := isDigit_toNat (isDigit_of_mem_toDigits hc)
  rw [String.utf8EncodeChar] at hb
  simp only [Char.toNat_val] at hb
  rw [if_pos (by omega), List.mem_singleton] at hb
  rw [hb, toNat_ofNat_byte (by omega)]
  exact hdigit

theorem plain_decimal {n : Nat} {b : UInt8} (h : b ∈ decimal n) : Plain b := by
  have hdigit := mem_decimal h
  exact plain_of_le ⟨by omega, hdigit.2⟩

theorem decimal_ne_nil (n : Nat) : decimal n ≠ [] := by
  intro h
  have hdigits : (Nat.toDigits 10 n) ≠ [] := Nat.toDigits_ne_nil
  obtain ⟨c, rest, hc⟩ := List.exists_cons_of_ne_nil hdigits
  have hascii : ∀ c ∈ Nat.toDigits 10 n, c.toNat < 128 := by
    intro c hc
    have := isDigit_toNat (isDigit_of_mem_toDigits hc)
    omega
  rw [decimal, utf8_of_ascii hascii, hc] at h
  simp at h

theorem decimal_injective {m n : Nat} (h : decimal m = decimal n) : m = n :=
  toDigits_injective (utf8_injective h)

/-- The fixed parts of a line. -/
def lineTexts : List String :=
  ["ip saddr ", " limit rate 1/second burst 1 packets drop", "counter packets ", " bytes ", " drop",
    " comment ", " # handle "]

theorem plain_lineTexts : ∀ text ∈ lineTexts, ∀ b ∈ lit text, Plain b := by
  have hall : (lineTexts.all fun text => (lit text).all fun b => decide (Plain b)) = true := by
    decide +kernel
  intro text htext b hb
  exact of_decide_eq_true (List.all_eq_true.mp (List.all_eq_true.mp hall text htext) b hb)

theorem plain_statement (r : Rule) (packets bytes : Nat) :
    ∀ b ∈ r.statement packets bytes, Plain b := by
  intro b hb
  unfold Rule.statement at hb
  split at hb
  · rename_i hkind
    have haddr : isValidIPv4 r.order.target = true := by
      have := r.order.valid
      rwa [hkind] at this
    simp only [List.mem_append] at hb
    rcases hb with (hb | hb) | hb
    · exact plain_lineTexts "ip saddr " (by simp [lineTexts]) b hb
    · exact plain_of_le (mem_isValidIPv4 haddr hb)
    · exact plain_lineTexts " limit rate 1/second burst 1 packets drop" (by simp [lineTexts]) b hb
  · simp only [List.mem_append] at hb
    rcases hb with (((hb | hb) | hb) | hb) | hb
    · exact plain_lineTexts "counter packets " (by simp [lineTexts]) b hb
    · exact plain_decimal hb
    · exact plain_lineTexts " bytes " (by simp [lineTexts]) b hb
    · exact plain_decimal hb
    · exact plain_lineTexts " drop" (by simp [lineTexts]) b hb

theorem mem_label (kind : Containment) : ∀ b ∈ kind.label, b ≠ 10 ∧ b ≠ 34 := by
  have hall : (kind.label.all fun b => decide (b ≠ 10 ∧ b ≠ 34)) = true := by
    cases kind <;> decide +kernel
  exact fun b hb => of_decide_eq_true (List.all_eq_true.mp hall b hb)

/-- A comment keeps to its line and to its quotes. -/
theorem mem_comment {o : Order} {b : UInt8} (h : b ∈ o.comment) : b ≠ 10 ∧ b ≠ 34 := by
  rcases List.mem_append.mp h with hlabel | hsafe
  · exact mem_label o.kind b hlabel
  · obtain ⟨c, _, rfl⟩ := List.mem_map.mp (List.mem_of_mem_take hsafe)
    split
    · decide
    · rename_i hc
      exact ⟨fun h => hc (Or.inl h), fun h => hc (Or.inr (Or.inr (Or.inl h)))⟩

theorem label_mem_comment (o : Order) : 122 ∈ o.comment := by
  refine List.mem_append_left _ ?_
  cases o.kind <;> decide +kernel

/-- A comment is found in the line of a rule exactly when the comment of the rule contains it. -/
theorem contains_line {o : Order} {r : Rule} {counters : Nat → Nat × Nat} :
    contains (r.line counters) o.comment = true ↔ o.comment <:+: r.order.comment := by
  have hquote : (34 : UInt8) ∉ o.comment := fun h => (mem_comment h).2 rfl
  have hfree : ∀ {s : Bytes}, (∀ b ∈ s, Plain b) → ¬ o.comment <:+: s := by
    intro s hs h
    exact (hs 122 (h.subset (label_mem_comment o))).2.2 rfl
  rw [contains_iff]
  constructor
  · intro h
    rcases infix_append_cons hquote h with hbefore | hafter
    · refine absurd hbefore (hfree fun b hb => ?_)
      rcases List.mem_append.mp hb with hb | hb
      · exact plain_statement r _ _ b hb
      · exact plain_lineTexts " comment " (by simp [lineTexts]) b hb
    · rcases infix_append_cons hquote hafter with hown | hmark
      · exact hown
      · refine absurd hmark (hfree fun b hb => ?_)
        rcases List.mem_append.mp hb with hb | hb
        · exact plain_lineTexts " # handle " (by simp [lineTexts]) b hb
        · exact plain_decimal hb
  · intro h
    refine h.trans ?_
    refine ⟨r.statement (counters r.handle).1 (counters r.handle).2 ++ lit " comment " ++ [34],
      34 :: (handleMark ++ decimal r.handle), ?_⟩
    simp [Rule.line]

theorem handleMark_eq : handleMark = [32, 35, 32, 104, 97, 110, 100, 108, 101, 32] := by
  decide +kernel

theorem lastIndexOf_handle (n : Nat) :
    lastIndexOf handleMark (handleMark ++ decimal n) = some 0 := by
  have hnone : lastIndexOf handleMark (decimal n) = none := by
    refine lastIndexOf_eq_none (b := 32) (by simp [handleMark_eq]) fun h => ?_
    have := mem_decimal h
    revert this
    decide
  have hhash : ∀ l, List.isPrefixOf (35 :: l) (decimal n) = false := by
    intro l
    rw [Bool.eq_false_iff]
    intro h
    have := mem_decimal ((List.isPrefixOf_iff_prefix.mp h).subset List.mem_cons_self)
    revert this
    decide
  rw [handleMark_eq] at hnone ⊢
  simp [lastIndexOf, hnone, List.isPrefixOf, hhash]

/-- What follows the last mark of a line is the handle of the rule. -/
theorem handle_of_line (r : Rule) (counters : Nat → Nat × Nat) :
    ∃ idx, lastIndexOf handleMark (r.line counters) = some idx ∧
      trimSpace ((r.line counters).drop (idx + handleMark.length)) = decimal r.handle := by
  obtain ⟨start, hstart⟩ :
      ∃ start, r.line counters = start ++ (handleMark ++ decimal r.handle) := by
    refine ⟨r.statement (counters r.handle).1 (counters r.handle).2 ++ lit " comment " ++ 34 ::
      (r.order.comment ++ [34]), ?_⟩
    simp [Rule.line]
  refine ⟨start.length, ?_, ?_⟩
  · rw [hstart, lastIndexOf_append (lastIndexOf_handle r.handle), Nat.add_zero]
  · rw [hstart, ← List.append_assoc, List.drop_left' (by simp)]
    refine trimSpace_of_ascii fun b hb => ?_
    have hdigit := mem_decimal hb
    refine ⟨by omega, ?_⟩
    simp only [goSpace, Bool.or_eq_false_iff, Bool.and_eq_false_iff, decide_eq_false_iff_not,
      beq_eq_false_iff_ne, ne_eq]
    omega

/-! ## What a removal deletes -/

/-- The loop stops at the first rule whose comment contains the one it looks for. -/
theorem findHandle_lines (o : Order) (counters : Nat → Nat × Nat) (rules : List Rule) :
    findHandle o.comment (rules.map (Rule.line counters) ++ [[]]) =
      (rules.find? fun r => o.comment <:+: r.order.comment).map fun r => decimal r.handle := by
  induction rules with
  | nil =>
    have hempty : contains [] o.comment = false := by
      rw [Bool.eq_false_iff, Ne, contains_iff]
      intro h
      have := h.subset (label_mem_comment o)
      cases this
    simp [findHandle, hempty]
  | cons r rules ih =>
    rw [List.map_cons, List.cons_append, findHandle, List.find?_cons]
    by_cases h : o.comment <:+: r.order.comment
    · obtain ⟨idx, hidx, hhandle⟩ := handle_of_line r counters
      rw [if_pos (contains_line.mpr h), hidx]
      simp only [hhandle, decimal_ne_nil, if_false, h, decide_true, Option.map_some]
    · rw [if_neg fun hc => h (contains_line.mp hc), ih]
      simp only [h, decide_false]

theorem not_mem_line (r : Rule) (counters : Nat → Nat × Nat) : 10 ∉ r.line counters := by
  have hplain : ∀ {s : Bytes}, (∀ b ∈ s, Plain b) → 10 ∉ s := fun hs h => (hs 10 h).1 rfl
  simp only [Rule.line, List.mem_append, List.mem_cons, not_or]
  refine ⟨⟨hplain (plain_statement r _ _), ?_⟩, by decide, fun h => (mem_comment h).1 rfl,
    by decide, ?_, hplain fun b => plain_decimal⟩
  · exact hplain (plain_lineTexts " comment " (by simp [lineTexts]))
  · exact hplain (plain_lineTexts " # handle " (by simp [lineTexts]))

/-- A removal deletes the first rule whose comment contains the one of the timer. -/
theorem removeRule_eq (o : Order) (counters : Nat → Nat × Nat) (rules : List Rule) :
    removeRule o.comment counters rules =
      match rules.find? fun r => o.comment <:+: r.order.comment with
      | none => rules
      | some r => rules.filter fun other => other.handle ≠ r.handle := by
  have hlines : (listChain counters rules).splitOn 10 = rules.map (Rule.line counters) ++ [[]] := by
    refine List.splitOn_intercalate 10 ?_ (by simp)
    intro l hl
    rcases List.mem_append.mp hl with hl | hl
    · obtain ⟨r, _, rfl⟩ := List.mem_map.mp hl
      exact not_mem_line r counters
    · rw [List.mem_singleton.mp hl]
      exact List.not_mem_nil
  rw [removeRule, hlines, findHandle_lines]
  cases rules.find? fun r => o.comment <:+: r.order.comment with
  | none => rfl
  | some r =>
    refine List.filter_congr fun other _ => ?_
    simp only [ne_eq, decide_eq_decide, not_iff_not]
    exact ⟨decimal_injective, fun h => h ▸ rfl⟩

/-! ## Timers and the rules of their calls -/

/-- The rule that the call of a timer installed. -/
def Timer.rule (timer : Timer) : Rule := ⟨timer.handle, timer.order⟩

/-- The rules of the chains are those of the calls whose timers have not fired, and a later call
has a greater handle. -/
structure Matched (s : State) : Prop where
  sorted : s.pending.Pairwise fun newer older => older.handle < newer.handle
  handle_lt : ∀ timer ∈ s.pending, timer.handle < s.next
  live : ∀ chain, s.rules chain =
    (s.pending.filter fun timer => timer.order.kind.chain = chain).map Timer.rule

section

variable {s : State} {timer : Timer} {handle : Nat} {counters : Nat → Nat × Nat}

theorem Matched.mem_rules (h : Matched s) {chain : Chain} {r : Rule} :
    r ∈ s.rules chain ↔ ∃ t ∈ s.pending, t.order.kind.chain = chain ∧ t.rule = r := by
  rw [h.live, List.mem_map]
  simp only [List.mem_filter, decide_eq_true_eq, and_assoc]

theorem Matched.rules_sorted (h : Matched s) (chain : Chain) :
    (s.rules chain).Pairwise fun newer older => older.handle < newer.handle := by
  rw [h.live, List.pairwise_map]
  exact h.sorted.filter _

/-- A handle belongs to one timer. -/
theorem Matched.eq_of_handle (h : Matched s) {t t' : Timer} (ht : t ∈ s.pending)
    (ht' : t' ∈ s.pending) (heq : t.handle = t'.handle) : t = t' := by
  have hnodup : (s.pending.map Timer.handle).Nodup := by
    rw [List.Nodup, List.pairwise_map]
    exact h.sorted.imp fun hlt => hlt.ne'
  exact List.inj_on_of_nodup_map hnodup ht ht' heq

theorem timerOf_mem (h : s.timerOf handle = some timer) :
    timer ∈ s.pending ∧ timer.handle = handle := by
  refine ⟨List.mem_of_find?_eq_some h, ?_⟩
  simpa using List.find?_some h

/-- In a list that is sorted, what is found is what nothing before it in the order matches. -/
theorem find?_eq_some_iff_of_sorted {α : Type} {l : List α} {key : α → Nat} {p : α → Bool} {a : α}
    (hl : l.Pairwise fun x y => key y < key x) (ha : a ∈ l) (hp : p a = true) :
    l.find? p = some a ↔ ∀ b ∈ l, key a < key b → p b = false := by
  obtain ⟨before, rest, rfl⟩ := List.append_of_mem ha
  have hbefore : ∀ b ∈ before, key a < key b := fun b hb =>
    (List.pairwise_append.mp hl).2.2 b hb a List.mem_cons_self
  have hrest : ∀ b ∈ rest, key b < key a :=
    (List.pairwise_cons.mp (List.pairwise_append.mp hl).2.1).1
  rw [List.find?_append, List.find?_cons, hp]
  constructor
  · intro h b hb hlt
    rcases List.mem_append.mp hb with hb | hb
    · cases hfind : before.find? p with
      | none => simpa using List.find?_eq_none.mp hfind b hb
      | some c =>
        rw [hfind] at h
        have hc : c = a := by simpa using h
        have := hbefore c (List.mem_of_find?_eq_some hfind)
        rw [hc] at this
        omega
    · rcases List.mem_cons.mp hb with rfl | hb
      · omega
      · have := hrest b hb
        omega
  · intro h
    have hnone : before.find? p = none := by
      rw [List.find?_eq_none]
      intro b hb
      simp [h b (List.mem_append_left _ hb) (hbefore b hb)]
    rw [hnone]
    rfl

/-- The removal of a timer is exact when the first rule it finds is its own. -/
theorem exact_iff_find (h : Matched s) (htimer : s.timerOf handle = some timer)
    (hdue : timer.due ≤ s.now) :
    Exact s (.expire handle counters) ↔ (s.rules timer.order.kind.chain).find?
      (fun r => timer.order.comment <:+: r.order.comment) = some timer.rule := by
  obtain ⟨hmem, hhandle⟩ := timerOf_mem htimer
  have hown : timer.rule ∈ s.rules timer.order.kind.chain := h.mem_rules.mpr ⟨timer, hmem, rfl, rfl⟩
  have hchain : (s.expire timer counters).rules timer.order.kind.chain =
      removeRule timer.order.comment counters (s.rules timer.order.kind.chain) :=
    Function.update_self _ _ _
  constructor
  · intro hexact
    obtain ⟨_, _, hrules⟩ := hexact timer htimer
    have hafter := hrules timer.order.kind.chain
    rw [hchain, removeRule_eq] at hafter
    cases hfind : (s.rules timer.order.kind.chain).find?
        fun r => timer.order.comment <:+: r.order.comment with
    | none =>
      have := List.find?_eq_none.mp hfind timer.rule hown
      exact absurd (decide_eq_true (List.infix_refl _)) this
    | some r =>
      -- the own rule is gone, so the rule that was found has its handle
      simp only [hfind] at hafter
      have hgone : timer.rule ∉ (s.rules timer.order.kind.chain).filter
          fun other => other.handle ≠ r.handle := by
        rw [hafter]
        simp [Timer.rule, hhandle]
      have heq : timer.handle = r.handle := by
        by_contra hne
        exact hgone (List.mem_filter.mpr ⟨hown, decide_eq_true hne⟩)
      obtain ⟨t, ht, _, rfl⟩ := h.mem_rules.mp (List.mem_of_find?_eq_some hfind)
      rw [h.eq_of_handle hmem ht heq]
  · intro hfind timer' htimer'
    rw [htimer] at htimer'
    cases htimer'
    refine ⟨hdue, ⟨timer.rule, hown, hhandle⟩, fun chain => ?_⟩
    by_cases hc : chain = timer.order.kind.chain
    · subst hc
      rw [hchain, removeRule_eq, hfind, ← hhandle]
      rfl
    · -- a handle is in one chain only
      have hother : (s.expire timer counters).rules chain = s.rules chain :=
        Function.update_of_ne hc _ _
      rw [hother, eq_comm, List.filter_eq_self]
      intro r hr
      obtain ⟨t, ht, htchain, rfl⟩ := h.mem_rules.mp hr
      have hne : t.handle ≠ handle := by
        intro heq
        rw [h.eq_of_handle ht hmem (heq.trans hhandle.symm)] at htchain
        exact hc htchain.symm
      exact decide_eq_true hne

theorem exact_iff_unshadowed (h : Matched s) (htimer : s.timerOf handle = some timer)
    (hdue : timer.due ≤ s.now) :
    Exact s (.expire handle counters) ↔ Unshadowed s (.expire handle counters) := by
  obtain ⟨hmem, hhandle⟩ := timerOf_mem htimer
  have hown : timer.rule ∈ s.rules timer.order.kind.chain := h.mem_rules.mpr ⟨timer, hmem, rfl, rfl⟩
  rw [exact_iff_find h htimer hdue, find?_eq_some_iff_of_sorted (h.rules_sorted _) hown
    (decide_eq_true (List.infix_refl _))]
  constructor
  · intro hfirst timer' hmem' hhandle' later hlater hchain hlt
    rw [h.eq_of_handle hmem' hmem (hhandle'.trans hhandle.symm)] at hchain ⊢
    have hnot := hfirst later.rule (h.mem_rules.mpr ⟨later, hlater, hchain, rfl⟩)
      (by simpa [Timer.rule, hhandle] using hlt)
    exact of_decide_eq_false hnot
  · intro hunshadowed r hr hlt
    obtain ⟨later, hlater, hchain, rfl⟩ := h.mem_rules.mp hr
    have hlt' : handle < later.handle := by simpa [Timer.rule, hhandle] using hlt
    exact decide_eq_false (hunshadowed timer hmem hhandle later hlater hchain hlt')

end

/-! ## Runs -/

section

variable {s u : State} {a : Action}

theorem matched_init : Matched {} where
  sorted := List.Pairwise.nil
  handle_lt _ h := by cases h
  live _ := rfl

theorem Matched.install (h : Matched s) (o : Order) : Matched (s.install o) where
  sorted := List.pairwise_cons.mpr ⟨h.handle_lt, h.sorted⟩
  handle_lt timer htimer := by
    rcases List.mem_cons.mp htimer with rfl | hold
    · exact Nat.lt_succ_self s.next
    · exact Nat.lt_succ_of_lt (h.handle_lt timer hold)
  live chain := by
    by_cases hc : chain = o.kind.chain
    · subst hc
      simp [State.install, Timer.rule, h.live]
    · have hc' : o.kind.chain ≠ chain := fun heq => hc heq.symm
      simp [State.install, hc, hc', h.live]

/-- A removal that is exact keeps the rules and the timers matched. -/
theorem Matched.expire (h : Matched s) {handle : Nat} {timer : Timer} {counters : Nat → Nat × Nat}
    (htimer : s.timerOf handle = some timer) (hexact : Exact s (.expire handle counters)) :
    Matched (s.expire timer counters) where
  sorted := h.sorted.filter _
  handle_lt other hother := h.handle_lt other (List.mem_filter.mp hother).1
  live chain := by
    obtain ⟨_, _, hrules⟩ := hexact timer htimer
    rw [hrules chain, h.live, List.filter_map, State.expire, List.filter_filter,
      List.filter_filter, (timerOf_mem htimer).2]
    congr 1
    refine List.filter_congr fun other _ => ?_
    exact Bool.and_comm _ _

theorem expire_cases {handle : Nat} {counters : Nat → Nat × Nat}
    (h : step s (.expire handle counters) = some u) :
    ∃ timer, s.timerOf handle = some timer ∧ timer.due ≤ s.now ∧ u = s.expire timer counters := by
  simp only [step] at h
  cases htimer : s.timerOf handle with
  | none =>
    rw [htimer] at h
    cases h
  | some timer =>
    simp only [htimer] at h
    split at h
    · rename_i hdue
      exact ⟨timer, rfl, hdue, (Option.some.inj h).symm⟩
    · cases h

theorem Matched.after (h : Matched s) (result : Except Fault (Option Order)) :
    Matched (s.after result) := by
  rcases result with _ | _ | o
  · exact h
  · exact h
  · exact h.install o

/-- One step: the rules stay matched with the timers unless a removal goes wrong. -/
theorem Matched.step (h : Matched s) (hexact : Exact s a) (htaken : step s a = some u) :
    Matched u := by
  cases a with
  | tarpitIP ip ttl dryRun nft =>
    cases htaken
    exact h.after _
  | isolateHost hostID ttl dryRun nft =>
    cases htaken
    exact h.after _
  | pass ns =>
    cases htaken
    exact ⟨h.sorted, h.handle_lt, h.live⟩
  | expire handle counters =>
    obtain ⟨timer, htimer, _, rfl⟩ := expire_cases htaken
    exact h.expire htimer hexact

theorem exact_iff_of_step (h : Matched s) (htaken : step s a = some u) :
    Exact s a ↔ Unshadowed s a := by
  cases a with
  | expire handle counters =>
    obtain ⟨timer, htimer, hdue, _⟩ := expire_cases htaken
    exact exact_iff_unshadowed h htimer hdue
  | tarpitIP ip ttl dryRun nft => exact Iff.rfl
  | isolateHost hostID ttl dryRun nft => exact Iff.rfl
  | pass ns => exact Iff.rfl

/-- In a run without a shadowed removal the live rules are those of the calls whose timers have
not fired. -/
theorem matched_of_run {acts : List Action} (h : Run step Unshadowed {} acts s) : Matched s :=
  h.invariant matched_init fun _ _ _ hmatched hmeets htaken =>
    hmatched.step ((exact_iff_of_step hmatched htaken).mpr hmeets) htaken

end

/-- In a run every timer deletes exactly the rule of its call, if and only if none fires while a
later call for the same chain, whose comment contains its own, still has its rule. -/
theorem ttl_removal_exact_iff (acts : List Action) (s : State) :
    Run step Exact {} acts s ↔ Run step Unshadowed {} acts s :=
  Run.iff_of_agree matched_init (fun _ _ _ h hmeets htaken => h.step hmeets htaken)
    fun _ _ _ h htaken => exact_iff_of_step h htaken

/-! ## Two addresses of which one is the start of the other -/

def shortOrder : Order := ⟨.tarpitIP, lit "1.2.3.4", 60, by decide +kernel⟩

def longOrder : Order := ⟨.tarpitIP, lit "1.2.3.40", 3600, by decide +kernel⟩

def shadowedActions : List Action :=
  [.tarpitIP (lit "1.2.3.4") 60 false {}, .tarpitIP (lit "1.2.3.40") 3600 false {},
    .pass (60 * 10 ^ 9)]

theorem tarpit_of_order {s : State} (o : Order) (hkind : o.kind = .tarpitIP) (hpos : 0 < o.ttl)
    (hmax : o.ttl ≤ maxContainmentTTLSeconds) :
    step s (.tarpitIP o.target o.ttl false {}) = some (s.install o) := by
  obtain ⟨kind, target, ttl, valid⟩ := o
  cases hkind
  dsimp only at hpos hmax ⊢
  have hrange : ¬ (ttl ≤ 0 ∨ ttl > maxContainmentTTLSeconds) := by omega
  simp [step, tarpitIPWithTTL, containWithTTL, valid, hrange, State.after]

/-- The state when the first of the two timers is due. -/
def shadowedState : State :=
  { ((({} : State).install shortOrder).install longOrder) with now := 60 * 10 ^ 9 }

theorem run_shadowed : AnyRun step {} shadowedActions shadowedState := by
  have hshort : step {} (.tarpitIP (lit "1.2.3.4") 60 false {}) =
      some (({} : State).install shortOrder) :=
    tarpit_of_order shortOrder rfl (by decide) (by decide)
  have hlong : step (({} : State).install shortOrder) (.tarpitIP (lit "1.2.3.40") 3600 false {}) =
      some ((({} : State).install shortOrder).install longOrder) :=
    tarpit_of_order longOrder rfl (by decide) (by decide)
  exact .snoc (.snoc (.single trivial hshort) trivial hlong) trivial rfl

def shortTimer : Timer := ⟨1, shortOrder, 0 + shortOrder.ttl.toNat * 10 ^ 9⟩

def longTimer : Timer := ⟨2, longOrder, 0 + longOrder.ttl.toNat * 10 ^ 9⟩

theorem pending_shadowed : shadowedState.pending = [longTimer, shortTimer] := rfl

theorem timerOf_shadowed : shadowedState.timerOf 1 = some shortTimer := by
  rw [State.timerOf, pending_shadowed]
  rfl

theorem due_shadowed : shortTimer.due ≤ shadowedState.now := by
  decide

/-- The tarpit of 1.2.3.4 for a minute and the one of 1.2.3.40 for an hour: after the minute the
timer of the first deletes the rule of the second. -/
theorem ttl_removes_other_target :
    ¬ ∀ acts s, AnyRun step {} acts s → Run step Exact {} acts s := by
  intro hall
  have hfires : step shadowedState (.expire 1 fun _ => (0, 0)) =
      some (shadowedState.expire shortTimer fun _ => (0, 0)) := by
    simp only [step, timerOf_shadowed, if_pos due_shadowed]
  obtain ⟨t, hbefore, hexact, _⟩ := run_snoc (hall _ _ (run_shadowed.snoc trivial hfires))
  have ht : shadowedState = t := run_shadowed.unique hbefore
  subst ht
  have hmatched : Matched shadowedState := hbefore.invariant matched_init
    fun _ _ _ h hmeets htaken => h.step hmeets htaken
  have hunshadowed := (exact_iff_unshadowed hmatched timerOf_shadowed due_shadowed).mp hexact
  have hinfix : shortOrder.comment <:+: longOrder.comment := by decide +kernel
  exact hunshadowed shortTimer (by simp [pending_shadowed]) rfl longTimer
    (by simp [pending_shadowed]) rfl (by decide) hinfix

end ZaqorinCore.Agent.Ttl
