import ZaqorinCore.Agent.Decode

/-!
# What the decoder refuses

The package comment has it that the parser "does NOT silently accept malformed input". The three
checks of the header keep to that; `ErrPayloadOverrun` is declared and returned nowhere: a payload
length that points behind the slice is cut to what is there. `parse_strict_iff` says for which
slices the contract is kept.
-/

namespace ZaqorinCore.Agent.Decode

open ZaqorinCore.Text ZaqorinCore.Base

/-! ## The contract -/

/-- The errors that the package declares. -/
inductive Refusal
  | shortWire
  | unsupportedL3
  | unsupportedL4
  | payloadOverrun
  deriving DecidableEq, Repr

def Refusal.text : Refusal → String
  | shortWire => "decode: wire shorter than 58 bytes"
  | unsupportedL3 => "decode: unsupported L3 protocol"
  | unsupportedL4 => "decode: unsupported L4 protocol"
  | payloadOverrun => "decode: payload_len exceeds wire"

def Fault.refusal : Fault → Refusal
  | shortWire => .shortWire
  | unsupportedL3 => .unsupportedL3
  | unsupportedL4 => .unsupportedL4

/-- A refusal is told with the text of the decoder's error. -/
theorem Fault.text_refusal (f : Fault) : f.refusal.text = f.text := by
  cases f <;> rfl

/-- `payload_len` -/
def declaredLen (wire : Bytes) : UInt16 := UInt16.ofNat (beNat (slice wire 48 50))

def SupportedL3 (wire : Bytes) : Prop :=
  wire.getD 44 0 = l3IPv4 ∨ wire.getD 44 0 = l3IPv6

def SupportedL4 (wire : Bytes) : Prop :=
  wire.getD 45 0 = l4TCP ∨ wire.getD 45 0 = l4UDP ∨ wire.getD 45 0 = l4ICMP ∨
    wire.getD 45 0 = l4ICMPv6

instance (wire : Bytes) : Decidable (SupportedL3 wire) :=
  inferInstanceAs (Decidable (_ ∨ _))

instance (wire : Bytes) : Decidable (SupportedL4 wire) :=
  inferInstanceAs (Decidable (_ ∨ _ ∨ _ ∨ _))

/-- The error that a slice is to be refused with, if any. -/
def refusalOf (wire : Bytes) : Option Refusal :=
  if wire.length < wireSize then some .shortWire
  else if ¬ SupportedL3 wire then some .unsupportedL3
  else if ¬ SupportedL4 wire then some .unsupportedL4
  else if wire.length - wireSize < (declaredLen wire).toNat then some .payloadOverrun
  else none

/-- The two values that `Parse` returns. -/
def returned (wire : Bytes) : L4Event × Option Fault :=
  match parse wire with
  | .ok ev => (ev, none)
  | .error f => ({}, some f)

/-- `Parse` accepts the slice if nothing is wrong with it, with the whole payload, and otherwise
returns the zero event and the matching error. -/
structure Strict (wire : Bytes) : Prop where
  accepts : (returned wire).2 = none ↔ refusalOf wire = none
  refuses : ∀ r, refusalOf wire = some r → ∃ f, returned wire = ({}, some f) ∧ f.refusal = r
  whole : (returned wire).2 = none →
    (returned wire).1.payload.length = (returned wire).1.payloadLen.toNat

/-! ## What the parser does -/

/-- A slice is refused with the error of the first check that it fails; the length of the payload is
not checked. -/
theorem parse_cases (wire : Bytes) :
    (∃ f, parse wire = .error f ∧ refusalOf wire = some f.refusal ∧
      ¬ (wireSize ≤ wire.length ∧ SupportedL3 wire ∧ SupportedL4 wire)) ∨
    (wireSize ≤ wire.length ∧ SupportedL3 wire ∧ SupportedL4 wire) ∧
      (refusalOf wire = if wire.length - wireSize < (declaredLen wire).toNat
        then some .payloadOverrun else none) ∧
      ∃ ev, parse wire = .ok ev ∧ ev.payloadLen = declaredLen wire ∧
        ev.payload.length = min (declaredLen wire).toNat (wire.length - wireSize) := by
  by_cases hshort : wire.length < wireSize
  · left
    refine ⟨.shortWire, ?_, ?_, fun h => absurd h.1 (not_le.mpr hshort)⟩
    · rw [parse, if_pos hshort]
    · rw [refusalOf, if_pos hshort]
      rfl
  by_cases hl3 : SupportedL3 wire
  · have hl3' : ¬ (wire.getD 44 0 ≠ l3IPv4 ∧ wire.getD 44 0 ≠ l3IPv6) := by
      rintro ⟨h4, h6⟩
      exact hl3.elim h4 h6
    by_cases hl4 : SupportedL4 wire
    · right
      have hl4' : ¬ (wire.getD 45 0 ≠ l4TCP ∧ wire.getD 45 0 ≠ l4UDP ∧ wire.getD 45 0 ≠ l4ICMP ∧
          wire.getD 45 0 ≠ l4ICMPv6) := by
        rintro ⟨htcp, hudp, hicmp, hicmpv6⟩
        rcases hl4 with h | h | h | h
        · exact htcp h
        · exact hudp h
        · exact hicmp h
        · exact hicmpv6 h
      refine ⟨⟨not_lt.mp hshort, hl3, hl4⟩, ?_, ?_⟩
      · rw [refusalOf, if_neg hshort, if_neg (not_not.mpr hl3), if_neg (not_not.mpr hl4)]
      · simp only [parse, if_neg hshort, if_neg hl3', if_neg hl4']
        refine ⟨_, rfl, rfl, ?_⟩
        simp only [slice, List.length_take, List.length_drop, declaredLen]
        omega
    · left
      have hl4' : wire.getD 45 0 ≠ l4TCP ∧ wire.getD 45 0 ≠ l4UDP ∧ wire.getD 45 0 ≠ l4ICMP ∧
          wire.getD 45 0 ≠ l4ICMPv6 := by
        simpa only [SupportedL4, not_or] using hl4
      refine ⟨.unsupportedL4, ?_, ?_, fun h => hl4 h.2.2⟩
      · simp only [parse, if_neg hshort, if_neg hl3', if_pos hl4']
      · rw [refusalOf, if_neg hshort, if_neg (not_not.mpr hl3), if_pos hl4]
        rfl
  · left
    have hl3' : wire.getD 44 0 ≠ l3IPv4 ∧ wire.getD 44 0 ≠ l3IPv6 := by
      simpa only [SupportedL3, not_or] using hl3
    refine ⟨.unsupportedL3, ?_, ?_, fun h => hl3 h.2.1⟩
    · simp only [parse, if_neg hshort, if_pos hl3']
    · rw [refusalOf, if_neg hshort, if_pos hl3]
      rfl

/-- The contract is kept for a slice exactly when it fails a check of its header or its payload does
not reach behind its end. -/
theorem parse_strict_iff (wire : Bytes) :
    Strict wire ↔ (wireSize ≤ wire.length ∧ SupportedL3 wire ∧ SupportedL4 wire →
      (declaredLen wire).toNat ≤ wire.length - wireSize) := by
  rcases parse_cases wire with ⟨f, hparse, hrefusal, hheader⟩ | ⟨hheader, hrefusal, ev, hparse,
    hlen, hpayload⟩
  · refine iff_of_true ?_ fun h => absurd h hheader
    have hreturned : returned wire = ({}, some f) := by rw [returned, hparse]
    constructor
    · rw [hreturned, hrefusal]
      exact iff_of_false nofun nofun
    · intro r hr
      rw [hrefusal] at hr
      exact ⟨f, hreturned, Option.some.inj hr⟩
    · rw [hreturned]
      nofun
  · have hreturned : returned wire = (ev, none) := by rw [returned, hparse]
    constructor
    · intro hstrict _
      have hwhole := hstrict.whole (by rw [hreturned])
      rw [hreturned] at hwhole
      dsimp only at hwhole
      rw [hpayload, hlen] at hwhole
      omega
    · intro hfits
      have hle := hfits hheader
      rw [if_neg (not_lt.mpr hle)] at hrefusal
      constructor
      · rw [hreturned, hrefusal]
        exact iff_of_true rfl rfl
      · intro r hr
        rw [hrefusal] at hr
        cases hr
      · intro _
        rw [hreturned]
        dsimp only
        rw [hpayload, hlen]
        omega

/-- A TCP segment with 1400 bytes, of which the record that the bridge cuts off holds six. -/
def cutRecord : Bytes :=
  List.replicate 44 0 ++ [l3IPv4, l4TCP, 0x18, 0] ++ beBytes 2 1400 ++ List.replicate 14 0

theorem overrun_accepted : ∃ ev, parse cutRecord = .ok ev ∧ ev.payloadLen = 1400 ∧
    ev.payload.length = 6 ∧ refusalOf cutRecord = some .payloadOverrun ∧ ¬ Strict cutRecord := by
  refine ⟨_, rfl, by decide, by decide, by decide, ?_⟩
  intro hstrict
  have hwhole := hstrict.whole (by decide)
  exact absurd hwhole (by decide)

end ZaqorinCore.Agent.Decode
