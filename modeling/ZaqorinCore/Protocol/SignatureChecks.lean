import ZaqorinCore.Protocol.Signature
import ZaqorinCore.Server.SigningSecrets
import ZaqorinCore.Text.LetterCase

/-!
# Checks of presented signatures

A signature arrives as text that anybody may have written. The server lowers it and compares it
with `hmac.compare_digest`, which raises on text outside of ASCII; the agent lowers and decodes it.
Both accept exactly the spellings of the digest in ASCII letters, but the server answers only where
the lowered text is in ASCII (`signature_checks_iff`).
-/

namespace ZaqorinCore.Protocol

open Text Server

/-- The text is a digest, up to the case of its ASCII letters. -/
def Spells (s digest : Str) : Prop := s.map Char.toLower = digest

instance (s digest : Str) : Decidable (Spells s digest) := inferInstanceAs (Decidable (_ = _))

/-! ## The comparison -/

theorem compareDigest_eq (bs : Bytes) (t : Str) : compareDigest (hexdigest bs) t =
    if ∀ c ∈ t, c.toNat < 128 then .ok (decide (hexdigest bs = t)) else .error .nonAscii := by
  have hdigest : (hexdigest bs).all (fun c => c.toNat < 128) = true := by
    rw [List.all_eq_true]
    exact fun c hc => decide_eq_true (hexAlphabet_ascii c (mem_hexdigest hc)).2
  have htext : t.all (fun c => c.toNat < 128) = true ↔ ∀ c ∈ t, c.toNat < 128 := by
    rw [List.all_eq_true]
    exact forall₂_congr fun _ _ => decide_eq_true_iff
  unfold compareDigest
  rw [hdigest, Bool.true_and]
  by_cases h : ∀ c ∈ t, c.toNat < 128
  · rw [if_pos h, if_pos (htext.mpr h), beq_eq_decide]
  · rw [if_neg h, if_neg fun hall => h (htext.mp hall)]

/-- A text that a digest is compared with is lowered without harm exactly when it gets to ASCII;
then it is equal exactly when it spells the digest. -/
theorem compareDigest_lower (finalSigma : Str → Str → Bool) (bs : Bytes) (s : Str) :
    compareDigest (hexdigest bs) (lower finalSigma s) =
      if ∀ c ∈ s, LowersToAscii c then .ok (decide (Spells s (hexdigest bs)))
      else .error .nonAscii := by
  have hspells : hexdigest bs = lower finalSigma s ↔ Spells s (hexdigest bs) :=
    eq_comm.trans (lower_eq_iff finalSigma fun c hc => mem_hexdigest hc)
  rw [compareDigest_eq]
  by_cases h : ∀ c ∈ s, LowersToAscii c
  · rw [if_pos h, if_pos (lower_ascii_iff.mpr h), decide_eq_decide.mpr hspells]
  · rw [if_neg h, if_neg fun hall => h (lower_ascii_iff.mp hall)]

theorem compareDigest_lower_iff (finalSigma : Str → Str → Bool) (bs : Bytes) (s : Str) :
    compareDigest (hexdigest bs) (lower finalSigma s) = .ok (decide (Spells s (hexdigest bs))) ↔
      ∀ c ∈ s, LowersToAscii c := by
  rw [compareDigest_lower]
  split
  · rename_i h
    exact iff_of_true rfl h
  · rename_i h
    exact iff_of_false nofun h

/-! ## Each check -/

/-- The agent accepts exactly the spellings of the signature, on every text. -/
theorem verify_utf8 (secret commandId kind target : Str) (ttlSec : Int) (issuedAt hmacHex : Str) :
    Agent.verify (utf8 secret) (utf8 commandId) (utf8 kind) (utf8 target) ttlSec (utf8 issuedAt)
        (utf8 hmacHex) =
      decide (Spells hmacHex (signCommand secret commandId kind target ttlSec issuedAt)) := by
  rw [Bool.eq_iff_iff, Agent.verify_eq, canonical_utf8, decodeString_toLower_iff,
    decide_eq_true_iff]
  rfl

theorem verifyCommand_iff (finalSigma : Str → Str → Bool) (secret commandId kind target : Str)
    (ttlSec : Int) (issuedAt hmacHex : Str) :
    verifyCommand finalSigma secret commandId kind target ttlSec issuedAt hmacHex =
        .ok (decide (Spells hmacHex (signCommand secret commandId kind target ttlSec issuedAt))) ↔
      ∀ c ∈ hmacHex, LowersToAscii c :=
  compareDigest_lower_iff finalSigma _ hmacHex

theorem verifyHmac_iff (ingest : Sources.Ingest) (body : Bytes) (presented : Str) :
    Sources.verifyHmac ingest body presented =
        .ok (decide (Spells presented (Sources.sign ingest.secret body))) ↔
      presented.length ≠ 64 ∨ ∀ c ∈ presented, LowersToAscii c := by
  have hlength := Sources.length_sign ingest.secret body
  unfold Sources.verifyHmac
  by_cases hlen : presented.length = 64
  · have hne : presented ≠ [] := by
      rintro rfl
      cases hlen
    rw [if_neg hne, if_neg (not_not_intro hlen), or_iff_right (not_not_intro hlen)]
    exact compareDigest_lower_iff ingest.finalSigma _ presented
  · have hother : ¬ Spells presented (Sources.sign ingest.secret body) := by
      intro h
      rw [← h, List.length_map] at hlength
      exact hlen hlength
    rw [decide_eq_false hother]
    refine iff_of_true ?_ (Or.inl hlen)
    split
    · rfl
    · rfl

/-! ## Both checks -/

/-- Each check of the server returns whether the text spells the signature, and the check of a
command agrees with the agent's, exactly when the text is lowered to ASCII: when each of its
characters is in ASCII or is the Kelvin sign. The check of a body also answers when the length is
wrong. -/
theorem signature_checks_iff (ingest : Sources.Ingest) (body : Bytes) (presented : Str)
    (finalSigma : Str → Str → Bool) (secret commandId kind target : Str) (ttlSec : Int)
    (issuedAt hmacHex : Str) :
    (Sources.verifyHmac ingest body presented =
        .ok (decide (Spells presented (Sources.sign ingest.secret body))) ↔
      presented.length ≠ 64 ∨ ∀ c ∈ presented, LowersToAscii c) ∧
    (verifyCommand finalSigma secret commandId kind target ttlSec issuedAt hmacHex =
        .ok (decide (Spells hmacHex (signCommand secret commandId kind target ttlSec issuedAt))) ↔
      ∀ c ∈ hmacHex, LowersToAscii c) ∧
    (verifyCommand finalSigma secret commandId kind target ttlSec issuedAt hmacHex =
        .ok (Agent.verify (utf8 secret) (utf8 commandId) (utf8 kind) (utf8 target) ttlSec
          (utf8 issuedAt) (utf8 hmacHex)) ↔
      ∀ c ∈ hmacHex, LowersToAscii c) := by
  have hcommand := verifyCommand_iff finalSigma secret commandId kind target ttlSec issuedAt hmacHex
  refine ⟨verifyHmac_iff ingest body presented, hcommand, ?_⟩
  rw [verify_utf8]
  exact hcommand

/-- As many letters as a signature has, none of them in ASCII. -/
def accents : Str := List.replicate 64 'é'

theorem accents_not_lowered : ¬ ∀ c ∈ accents, LowersToAscii c :=
  fun h => absurd (h 'é' (List.mem_replicate.mpr ⟨by decide, rfl⟩)) (by decide)

def sampleIngest : Sources.Ingest := ⟨"ingest-secret".toList, fun _ _ => false⟩

/-- Both checks raise on text that the agent refuses. -/
theorem accents_raise :
    Sources.verifyHmac sampleIngest [] accents = .error .nonAscii ∧
      verifyCommand (fun _ _ => false) "secret".toList [] [] [] 0 [] accents = .error .nonAscii ∧
      Agent.verify (lit "secret") [] [] [] 0 [] (utf8 accents) = false := by
  have hcompare : ∀ bs, compareDigest (hexdigest bs) (lower (fun _ _ => false) accents) =
      .error .nonAscii := by
    intro bs
    rw [compareDigest_lower, if_neg accents_not_lowered]
  refine ⟨?_, hcompare _, ?_⟩
  · unfold Sources.verifyHmac
    rw [if_neg (by decide), if_neg (by decide)]
    exact hcompare _
  · refine (verify_utf8 "secret".toList [] [] [] 0 [] accents).trans (decide_eq_false fun h => ?_)
    have hmem : Char.toLower 'é' ∈ accents.map Char.toLower :=
      List.mem_map_of_mem (List.mem_replicate.mpr ⟨by decide, rfl⟩)
    rw [h] at hmem
    exact absurd (mem_hexdigest hmem) (by decide)

end ZaqorinCore.Protocol
