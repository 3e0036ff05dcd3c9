import ZaqorinCore.Server.Durable
import ZaqorinCore.Server.Detect
import ZaqorinCore.Text.Float
import ZaqorinCore.Text.Numeral

/-!
# From the agent channel to the detectors

An event that the channel has stored goes to the detectors through a Redis stream: `publish_event`
writes its identifiers, its source and its second as texts, and `_process_one` parses these texts
again and reads the rest from the row. `detectors_read_stored` says that this is the event that was
stored, whatever the channel does in between.

The second goes through a `float`. Its spacing is finer than two microseconds up to 2^33 seconds,
the year 2242, and so up to there the `float` of a time does not reach the next second.
-/

namespace ZaqorinCore.Server

open Text Base

/-! ## The entry -/

/-- `int(x)`, which rounds towards zero; `none` is an exception. -/
def intOfDouble : Double → Option Int
  | .fin q => some (if q < 0 then ⌈q⌉ else ⌊q⌋)
  | _ => none

/-- `int(occurred_at.timestamp())` of an aware `datetime`, given in microseconds since 1970. -/
def unixSeconds (micros : Int) : Option Int := intOfDouble (toDouble (micros / 1000000 : ℚ))

/-- The fields of an entry of the stream. -/
def entryOf (eventId hostId : Uuid) (source : Str) (seconds : Int) : List (Str × Str) :=
  [("event_id".toList, uuidStr eventId), ("host_id".toList, uuidStr hostId),
    ("source".toList, source), ("occurred_at_unix".toList, itoa seconds)]

/-- The entry that `publish_event` adds for a row. -/
def publishEvent (e : Event) : Option (List (Str × Str)) :=
  (unixSeconds e.occurredAt).map (entryOf e.id e.hostId e.source)

theorem entryField_entryOf (eventId hostId : Uuid) (source : Str) (seconds : Int) :
    entryField (entryOf eventId hostId source seconds) "event_id" = some (uuidStr eventId) ∧
      entryField (entryOf eventId hostId source seconds) "host_id" = some (uuidStr hostId) ∧
      entryField (entryOf eventId hostId source seconds) "source" = some source ∧
      entryField (entryOf eventId hostId source seconds) "occurred_at_unix" =
        some (itoa seconds) :=
  ⟨rfl, rfl, rfl, rfl⟩

/-! ## Identifiers -/

theorem hexValue_hexDigit (n : Nat) : hexValue (hexDigit n) = some (n % 16) := by
  unfold hexDigit
  have h : n % 16 < 16 := Nat.mod_lt _ (by omega)
  generalize n % 16 = m at h
  interval_cases m <;> decide

/-- The digits of a number below `16 ^ w` continue a number that has been read. -/
theorem readHexDigits_hexPadded {w m : Nat} (hm : m < 16 ^ w) (ok : Bool) (n : Nat) (rest : Str) :
    readHexDigits ok n (hexPadded w m ++ rest) =
      readHexDigits (ok || decide (0 < w)) (16 ^ w * n + m) rest := by
  induction w generalizing m rest with
  | zero =>
    have hzero : m = 0 := by omega
    simp [hexPadded, hzero]
  | succ w ih =>
    rw [pow_succ] at hm
    have hvalue : 16 * (16 ^ w * n + m / 16) + m % 16 = 16 ^ (w + 1) * n + m := by
      rw [pow_succ]
      ring_nf
      omega
    rw [hexPadded, List.append_assoc, ih (by omega), List.singleton_append, readHexDigits,
      hexValue_hexDigit]
    dsimp only
    rw [hvalue]
    simp

theorem pyHexInt_hexPadded {m : Nat} (hm : m < 16 ^ 32) :
    pyHexInt (hexPadded 32 m) = some (m : Int) := by
  have hmem : ∀ c ∈ hexPadded 32 m, c ∈ hexAlphabet := fun c hc => mem_hexPadded hc
  have hplain : ∀ c ∈ hexAlphabet, c.toNat < 128 ∧ asciiSpace c = false ∧ c ≠ '+' ∧ c ≠ '-' ∧
      c ≠ 'x' ∧ c ≠ 'X' := by
    simp [hexAlphabet, asciiSpace]
  have hread := readHexDigits_hexPadded hm false 0 []
  have hlen : (hexPadded 32 m).length = 32 := hexPadded_length _ _
  generalize hexPadded 32 m = s at hmem hread hlen
  have hascii : s.all (fun c => c.toNat < 128) = true := by
    rw [List.all_eq_true]
    intro c hc
    exact decide_eq_true (hplain c (hmem c hc)).1
  have hspace : s.dropWhile asciiSpace = s :=
    dropWhile_of_none fun c hc => (hplain c (hmem c hc)).2.1
  obtain ⟨c, s, rfl⟩ := List.exists_cons_of_length_pos (l := s) (by omega)
  obtain ⟨d, rest, rfl⟩ := List.exists_cons_of_length_pos (l := s) (by
    rw [List.length_cons] at hlen
    omega)
  obtain ⟨-, -, hplus, hminus, -⟩ := hplain c (hmem c (by simp))
  obtain ⟨-, -, -, -, hx, hX⟩ := hplain d (hmem d (by simp))
  rw [List.append_nil] at hread
  unfold pyHexInt
  simp only [hascii, if_true, hspace]
  simp [hplus, hminus, hx, hX, hread, readHexDigits]

theorem replaceFrom_of_not_mem {c : Char} {old new s : Str} (h : c ∉ s) :
    replaceFrom (c :: old) new 0 s = s := by
  have happ : replaceFrom (c :: old) new 0 (s ++ []) = s ++ replaceFrom (c :: old) new 0 [] :=
    replaceFrom_append h
  rw [List.append_nil] at happ
  rw [happ, replaceFrom, List.append_nil]

/-- `uuid.UUID` reads the text that `str` gives. -/
theorem toUuid_uuidStr (u : Uuid) : toUuid (uuidStr u) = some u := by
  have hchars : ∀ c ∈ uuidStr u, c ≠ 'u' ∧ c ≠ '\x7b' ∧ c ≠ '\x7d' := by
    intro c hc
    rcases mem_uuidStr hc with hhex | rfl
    · have hne : ∀ c ∈ hexAlphabet, c ≠ 'u' ∧ c ≠ '\x7b' ∧ c ≠ '\x7d' := by simp [hexAlphabet]
      exact hne c hhex
    · decide
  have hu : 'u' ∉ uuidStr u := fun h => (hchars 'u' h).1 rfl
  have hbrace : ∀ c ∈ uuidStr u, (c == '\x7b' || c == '\x7d') = false := by
    intro c hc
    simp [(hchars c hc).2.1, (hchars c hc).2.2]
  have hurn : replaceFrom "urn:".toList [] 0 (uuidStr u) = uuidStr u := replaceFrom_of_not_mem hu
  have huuid : replaceFrom "uuid:".toList [] 0 (uuidStr u) = uuidStr u :=
    replaceFrom_of_not_mem hu
  have hdigits := toNat_lt_hexPadded u
  unfold toUuid
  dsimp only
  rw [hurn, huuid, dropWhile_of_none hbrace,
    dropWhile_of_none (fun c hc => hbrace c (List.mem_reverse.mp hc)), List.reverse_reverse,
    filter_uuidStr, hexPadded_length, if_neg (by simp), pyHexInt_hexPadded hdigits]
  dsimp only
  rw [if_pos ⟨by omega, by exact_mod_cast u.isLt⟩]
  simp

/-! ## Seconds -/

theorem abs_roundHalfEven_sub_le (q : ℚ) : |(roundHalfEven q : ℚ) - q| ≤ 1 / 2 := by
  have hlow := Int.floor_le q
  have hhigh := Int.lt_floor_add_one q
  unfold roundHalfEven
  dsimp only
  split
  · rw [abs_le]
    constructor
    · linarith
    · linarith
  · split
    · rw [abs_le]
      push_cast
      constructor
      · linarith
      · linarith
    · have hhalf : q - ⌊q⌋ = 1 / 2 := by linarith
      split
      · rw [abs_le]
        constructor
        · linarith
        · linarith
      · rw [abs_le]
        push_cast
        constructor
        · linarith
        · linarith

/-- Rounding does not pass an integer. -/
theorem le_roundHalfEven {k : Int} {q : ℚ} (h : (k : ℚ) ≤ q) : k ≤ roundHalfEven q := by
  have hfloor : k ≤ ⌊q⌋ := Int.le_floor.mpr h
  unfold roundHalfEven
  dsimp only
  split
  · exact hfloor
  · split
    · omega
    · split
      · exact hfloor
      · omega

/-- A nonnegative rational below 2^33 is within 2^-21 of its `float`, and on the same side of every
integer below it. -/
theorem toDouble_near {q : ℚ} (hq : 0 ≤ q) (hbound : q < 2 ^ 33) :
    ∃ x : ℚ, toDouble q = .fin x ∧ |x - q| ≤ 1 / 2 ^ 21 ∧ ∀ k : Int, (k : ℚ) ≤ q → (k : ℚ) ≤ x := by
  have hlog : Int.log 2 |q| ≤ 32 := by
    rw [abs_of_nonneg hq]
    rcases hq.eq_or_lt with hzero | hpos
    · rw [← hzero]
      simp
    · have hlt : Int.log 2 q < 33 := (Int.lt_zpow_iff_log_lt (by norm_num) hpos).mp (by
        exact_mod_cast hbound)
      omega
  obtain ⟨e, he, hle⟩ : ∃ e : Int, e = max (Int.log 2 |q| - 52) (-1074) ∧ e ≤ -20 :=
    ⟨_, rfl, by omega⟩
  have hpos : (0 : ℚ) < 2 ^ e := by positivity
  have hsmall : (2 : ℚ) ^ e ≤ 1 / 2 ^ 20 := by
    calc (2 : ℚ) ^ e ≤ 2 ^ (-20 : Int) := zpow_le_zpow_right₀ (by norm_num) hle
      _ = 1 / 2 ^ 20 := by norm_num
  have hnear : |(roundHalfEven (q / 2 ^ e) : ℚ) * 2 ^ e - q| ≤ 1 / 2 ^ 21 := by
    have hround := abs_roundHalfEven_sub_le (q / 2 ^ e)
    have hscale : (roundHalfEven (q / 2 ^ e) : ℚ) * 2 ^ e - q =
        ((roundHalfEven (q / 2 ^ e) : ℚ) - q / 2 ^ e) * 2 ^ e := by
      field_simp
    rw [hscale, abs_mul, abs_of_pos hpos]
    calc |(roundHalfEven (q / 2 ^ e) : ℚ) - q / 2 ^ e| * 2 ^ e
        ≤ 1 / 2 * (1 / 2 ^ 20) := mul_le_mul hround hsmall hpos.le (by norm_num)
      _ = 1 / 2 ^ 21 := by norm_num
  refine ⟨(roundHalfEven (q / 2 ^ e) : ℚ) * 2 ^ e, ?_, hnear, ?_⟩
  · have hfinite : |(roundHalfEven (q / 2 ^ e) : ℚ) * 2 ^ e| < 2 ^ 1024 := by
      obtain ⟨hlow, hhigh⟩ := abs_le.mp hnear
      have hhuge : (2 : ℚ) ^ 34 ≤ 2 ^ 1024 := pow_le_pow_right₀ (by norm_num) (by norm_num)
      generalize (2 : ℚ) ^ 1024 = huge at hhuge ⊢
      rw [abs_lt]
      constructor
      · linarith
      · linarith
    unfold toDouble
    dsimp only
    rw [← he, if_pos hfinite]
  · intro k hk
    -- an integer is a multiple of the spacing
    obtain ⟨d, hd⟩ : ∃ d : Nat, e = -(d : Int) := ⟨e.natAbs, by omega⟩
    have hscaled : ((k * 2 ^ d : Int) : ℚ) ≤ q / 2 ^ e := by
      rw [le_div_iff₀ hpos, hd, zpow_neg, zpow_natCast]
      push_cast
      rw [mul_assoc, mul_inv_cancel₀ (by positivity), mul_one]
      exact hk
    have hround := le_roundHalfEven hscaled
    calc (k : ℚ) = ((k * 2 ^ d : Int) : ℚ) * 2 ^ e := by
          rw [hd, zpow_neg, zpow_natCast]
          push_cast
          rw [mul_assoc, mul_inv_cancel₀ (by positivity), mul_one]
      _ ≤ (roundHalfEven (q / 2 ^ e) : ℚ) * 2 ^ e :=
          mul_le_mul_of_nonneg_right (by exact_mod_cast hround) hpos.le

theorem unixSeconds_eq {micros : Int} (hlow : 0 ≤ micros) (hhigh : micros < 2 ^ 33 * 1000000) :
    unixSeconds micros = some (micros / 1000000) := by
  have hmicros : (0 : ℚ) ≤ micros := by exact_mod_cast hlow
  have hbound : (micros : ℚ) < 2 ^ 33 * 1000000 := by exact_mod_cast hhigh
  have hq : (0 : ℚ) ≤ micros / 1000000 := by positivity
  obtain ⟨x, hx, hnear, hside⟩ := toDouble_near hq (by linarith)
  have hfloor : (micros / 1000000 : Int) ≤ (micros / 1000000 : ℚ) := by
    have : 1000000 * (micros / 1000000) ≤ micros := Int.mul_ediv_self_le (by norm_num)
    have : (1000000 : ℚ) * (micros / 1000000 : Int) ≤ micros := by exact_mod_cast this
    linarith
  -- the last microsecond of a second is further from the next one than the rounding goes
  have hnext : (micros / 1000000 : ℚ) + 1 / 1000000 ≤ (micros / 1000000 : Int) + 1 := by
    have : micros + 1 ≤ 1000000 * (micros / 1000000 + 1) := by omega
    have : (micros : ℚ) + 1 ≤ 1000000 * ((micros / 1000000 : Int) + 1) := by exact_mod_cast this
    linarith
  have hx0 : ¬ x < 0 := not_lt.mpr (by simpa using hside 0 (by simpa using hq))
  have hfloorx : ⌊x⌋ = micros / 1000000 := by
    rw [Int.floor_eq_iff]
    refine ⟨hside _ hfloor, ?_⟩
    have := (abs_le.mp hnear).2
    linarith
  rw [unixSeconds, hx, intOfDouble, if_neg hx0, hfloorx]

theorem pyInt_itoa {n : Int} (hlow : 0 ≤ n) (hhigh : n < 2 ^ 33) : pyInt (itoa n) = some n := by
  obtain ⟨m, rfl⟩ := Int.eq_ofNat_of_zero_le hlow
  have hlength : (Nat.toDigits 10 m).length ≤ 11 :=
    (Nat.length_toDigits_le_iff (by decide) (by decide)).mpr (by omega)
  show pyInt (Nat.toDigits 10 m) = some (m : Int)
  rw [pyInt_digits Nat.toDigits_ne_nil (fun c hc => isDigit_of_mem_toDigits hc),
    if_pos (by omega), Nat.ofDigitChars_ten_toDigits]

/-! ## The round trip -/

/-- The entry of a row parses to its identifiers, its source and its second. -/
theorem parseEvent_publishEvent {e : Event} (hlow : 0 ≤ e.occurredAt)
    (hhigh : e.occurredAt < 2 ^ 33 * 1000000) :
    ∃ fields, publishEvent e = some fields ∧ parseEvent fields =
      .ok (some ⟨e.id, e.hostId, e.source, [], [], e.occurredAt / 1000000⟩) := by
  have hseconds : 0 ≤ e.occurredAt / 1000000 ∧ e.occurredAt / 1000000 < 2 ^ 33 := by omega
  refine ⟨entryOf e.id e.hostId e.source (e.occurredAt / 1000000), ?_, ?_⟩
  · rw [publishEvent, unixSeconds_eq hlow hhigh, Option.map_some]
  have htime : fromTimestamp (e.occurredAt / 1000000) = .ok (some (e.occurredAt / 1000000)) := by
    unfold fromTimestamp
    rw [if_neg (by omega), if_neg (by omega), if_neg (by omega)]
    rfl
  unfold parseEvent
  obtain ⟨hevent, hhost, hsource, hunix⟩ :=
    entryField_entryOf e.id e.hostId e.source (e.occurredAt / 1000000)
  rw [hevent, hhost, hsource, hunix, Option.bind_some, Option.bind_some, Option.bind_some,
    toUuid_uuidStr, toUuid_uuidStr, pyInt_itoa hseconds.1 hseconds.2]
  dsimp only
  rw [htime]
  rfl

/-- The metadata of a frame are texts. -/
def Texts (metadata : List (Str × Json)) (texts : List (Str × Str)) : Prop :=
  metadata = texts.map fun m => (m.1, .str m.2)

theorem texts_of_strDict {v : Option Json} {metadata : List (Str × Json)}
    (h : strDict v = some metadata) : ∃ texts, Texts metadata texts := by
  unfold strDict at h
  split at h
  · cases h
    exact ⟨[], rfl⟩
  · split at h
    · rename_i hall
      cases h
      rw [List.all_eq_true] at hall
      induction metadata with
      | nil => exact ⟨[], rfl⟩
      | cons f metadata ih =>
        obtain ⟨hf, hrest⟩ := List.forall_mem_cons.mp hall
        obtain ⟨texts, htexts⟩ := ih hrest
        obtain ⟨name, value⟩ := f
        cases value with
        | str text => exact ⟨(name, text) :: texts, by rw [Texts, List.map_cons, htexts]⟩
        | null | bool | int | float | arr | obj => cases hf
    · cases h
  · cases h

theorem texts_of_eventFrame {lib : Library} {fields : List (Str × Json)} {e : Event}
    (h : eventFrame lib fields = some e) : ∃ texts, Texts e.metadata texts := by
  unfold eventFrame at h
  obtain ⟨_, -, h⟩ := Option.bind_eq_some_iff.mp h
  obtain ⟨inner, -, h⟩ := Option.bind_eq_some_iff.mp h
  obtain ⟨event, hevent, h⟩ := Option.bind_eq_some_iff.mp h
  obtain ⟨_, -, h⟩ := Option.bind_eq_some_iff.mp h
  cases h
  unfold eventInner at hevent
  split at hevent
  · -- schema, id, time, host, source and text come before the metadata
    iterate 12 obtain ⟨_, -, hevent⟩ := Option.bind_eq_some_iff.mp hevent
    obtain ⟨metadata, hmetadata, hevent⟩ := Option.bind_eq_some_iff.mp hevent
    obtain ⟨_, -, hevent⟩ := Option.bind_eq_some_iff.mp hevent
    cases hevent
    exact texts_of_strDict hmetadata
  · cases hevent

theorem eventFrame_of_readFrame {lib : Library} {limits : StreamLimits} {window : Window}
    {mono : Int} {raw : Str} {e : Event} (h : (readFrame lib limits window mono raw).2 = .event e) :
    ∃ fields, eventFrame lib fields = some e := by
  unfold readFrame at h
  split at h
  · cases h
  · dsimp only at h
    split at h
    · cases h
    · split at h
      · cases h
      · cases h
      · rename_i payload _
        dsimp only at h
        unfold readPayload at h
        split at h
        · split at h
          · cases h
          · rename_i hframe
            cases h
            exact ⟨payload, hframe⟩
        · split at h
          · split at h
            · cases h
            · cases h
          · split at h
            · cases h
            · cases h
      · cases h

theorem persistEvent_new {db : Db} {e : Event} (fresh : db.events.find e.id = none)
    (known : (db.hosts.find e.hostId).isSome = true) :
    ∃ db', persistEvent db e = .ok db' ∧ db'.events.find e.id = some e := by
  obtain ⟨host, hhost⟩ := Option.isSome_iff_exists.mp known
  refine ⟨{ db with events := db.events.insert e fresh }, ?_, ?_⟩
  · unfold persistEvent
    split
    · rename_i hold
      rw [fresh] at hold
      cases hold
    · rw [hhost]
  · rw [Table.find_insert, if_pos rfl]

namespace Channel

/-- **From the agent to the detectors.** A frame brings an event of a known host that is not stored
yet. Whatever happens on the channel afterwards, the entry that was published for it parses, and
with the row that its identifier leads to it is the event of the frame: the same host, source, text
and metadata, and the second of its time. -/
theorem detectors_read_stored (cfg : Config) (repr : Json → Str) (s m t : Channel) (as : List Act)
    (c : ConnId) (conn : Conn) (hostId : Uuid) (window : Window) (raw : Str) (mono now : Int)
    (e : Event) (here : s.conns c = some conn) (phase : conn.phase = .serving hostId window)
    (read : (readFrame cfg.lib cfg.limits window mono raw).2 = .event e)
    (fresh : s.db.events.find e.id = none) (known : (s.db.hosts.find e.hostId).isSome = true)
    (hlow : 0 ≤ e.occurredAt) (hhigh : e.occurredAt < 2 ^ 33 * 1000000)
    (taken : step cfg s (.receive c raw mono now true) = some m) (run : AnyRun (step cfg) m as t) :
    ∃ fields parsed text metadata texts, publishEvent e = some fields ∧
      parseEvent fields = .ok (some parsed) ∧
      loadEventPayload repr t.db parsed.eventId = some (text, metadata) ∧
      Texts e.metadata texts ∧
      { parsed with raw := text, metadata } =
        ⟨e.id, e.hostId, e.source, e.raw, texts, e.occurredAt / 1000000⟩ := by
  obtain ⟨fields, hpublished, hparsed⟩ := parseEvent_publishEvent hlow hhigh
  obtain ⟨frame, hframe⟩ := eventFrame_of_readFrame read
  obtain ⟨texts, htexts⟩ := texts_of_eventFrame hframe
  have hstored : m.db.events.find e.id = some e := by
    obtain ⟨db', hpersisted, hfound⟩ := persistEvent_new fresh known
    have hm : m = s.receive cfg c conn hostId window raw mono now true :=
      Option.some.inj (taken.symm.trans (step_receive here phase))
    subst hm
    show (serveFrame s.db now true (readFrame cfg.lib cfg.limits window mono raw).2).1.events.find
      e.id = some e
    rw [read, serveFrame_event_stored hpersisted]
    exact hfound
  have hlater : t.db.events.find e.id = some e := (EventsExplained.run run).kept _ _ hstored
  have hpayload : loadEventPayload repr t.db e.id = some (e.raw, texts) := by
    have hstr : (fun m : Str × Json => (m.1, pyStr repr m.2)) ∘
        (fun m : Str × Str => (m.1, Json.str m.2)) = id := rfl
    rw [loadEventPayload, hlater, Option.map_some, htexts, List.map_map, hstr, List.map_id]
  exact ⟨fields, _, e.raw, texts, texts, hpublished, hparsed, hpayload, htexts, rfl⟩

/-- The agent's connection waits for its event, whose host is known. -/
def awaits (s : Channel) : Bool :=
  match s.conns 1 with
  | some conn =>
    match conn.phase with
    | .serving _ window =>
      (s.db.hosts.find onlineHost.id).isSome && (s.db.events.find 13#128).isNone &&
      match (readFrame twoHostsConfig.lib twoHostsConfig.limits window 0
          (eventText onlineHost.id)).2 with
      | .event e => e.id == 13#128 && e.hostId == onlineHost.id && e.occurredAt == 0
      | _ => false
    | _ => false
  | none => false

theorem read_sample :
    ∃ s m e texts parsed, AnyRun (step twoHostsConfig) (initial twoHostsDb) onlineRun s ∧
      step twoHostsConfig s (.receive 1 (eventText onlineHost.id) 0 0 true) = some m ∧
      e.hostId = onlineHost.id ∧ (∃ fields, publishEvent e = some fields ∧
        parseEvent fields = .ok (some parsed)) ∧
      loadEventPayload (fun _ => []) m.db parsed.eventId = some (e.raw, texts) := by
  have hcheck : (exec (step twoHostsConfig) (initial twoHostsDb) onlineRun).any awaits = true := by
    decide +kernel
  obtain ⟨s, hrun, hs⟩ := run_of_check hcheck
  unfold awaits at hs
  split at hs
  · rename_i conn here
    split at hs
    · rename_i hostId window phase
      rw [Bool.and_eq_true, Bool.and_eq_true, Option.isNone_iff_eq_none] at hs
      obtain ⟨⟨known, fresh⟩, hevent⟩ := hs
      split at hevent
      · rename_i e read
        simp only [Bool.and_eq_true, beq_iff_eq] at hevent
        obtain ⟨⟨hid, hhost⟩, htime⟩ := hevent
        have taken : step twoHostsConfig s (.receive 1 (eventText onlineHost.id) 0 0 true) = _ :=
          step_receive here phase
        obtain ⟨fields, parsed, text, metadata, texts, hpublished, hparsed, hpayload, -, heq⟩ :=
          detectors_read_stored twoHostsConfig (fun _ => []) s _ _ [] 1 conn hostId window _ 0 0 e
            here phase read (by rw [hid]; exact fresh) (by rw [hhost]; exact known)
            (by rw [htime]) (by rw [htime]; norm_num) taken (.nil _)
        have htext : text = e.raw := congrArg ParsedEvent.raw heq
        rw [htext] at hpayload
        exact ⟨s, _, e, metadata, parsed, hrun, taken, hhost, ⟨fields, hpublished, hparsed⟩,
          hpayload⟩
      · cases hevent
    · cases hs
  · cases hs

end Channel

end ZaqorinCore.Server
