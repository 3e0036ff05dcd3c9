import ZaqorinCore.Base.TumblingWindow
import ZaqorinCore.Server.Channel

/-!
# The message rate of a connection

The loop of `ws_agent` counts the frames of a connection in windows of a minute and closes the
connection when a window holds more than `ws_max_msg_per_min`. A new window knows nothing of the
one before it, so a minute across the start of a window holds frames of both. `rate_cap_iff` says
for which arrival times a connection keeps to the rate all the same, and `at_most_twice` what holds
of every connection.
-/

namespace ZaqorinCore.Server.MessageRate

open Text Base

/-! ## The loop -/

/-- A frame, the readings of both clocks, and the database as the handler finds it. -/
structure Frame where
  mono : Int
  raw : Str
  now : Int
  db : Db
  dbUp : Bool

/-- The local variables of the loop, and the times of the frames it did not close the connection
on at its two limits. -/
structure Handler where
  window : Window
  serving : Bool
  processed : List Int

/-- Both limits let the frame through. -/
def passes (limits : StreamLimits) (h : Handler) (f : Frame) : Bool :=
  f.raw.length ≤ limits.wsMaxMsgBytes ∧ (h.window.arrive f.mono).count ≤ limits.wsMaxMsgPerMin

/-- One pass of the loop; a handler that has left it gets no frame. -/
def receive (lib : Library) (limits : StreamLimits) (h : Handler) (f : Frame) : Handler :=
  if !h.serving then h
  else
    let read := readFrame lib limits h.window f.mono f.raw
    { window := read.1
      serving := (serveFrame f.db f.now f.dbUp read.2).2 = .stay
      processed := if passes limits h f then h.processed ++ [f.mono] else h.processed }

/-- The loop over the frames of a connection whose handshake ended at `start`. -/
def serve (lib : Library) (limits : StreamLimits) (start : Int) (frames : List Frame) : Handler :=
  frames.foldl (receive lib limits) ⟨⟨start, 0⟩, true, []⟩

def minute : Int := 60 * 1000000000

/-- The windows into which the times of the frames fall. -/
def windowsOf (start : Int) (frames : List Frame) : Windows Int :=
  .cut minute start (frames.map Frame.mono)

/-! ## One frame -/

section

variable {lib : Library} {limits : StreamLimits} {h : Handler} {f : Frame}

theorem receive_of_left (hserving : h.serving = false) : receive lib limits h f = h := by
  unfold receive
  rw [hserving]
  rfl

theorem passes_iff : passes limits h f = true ↔ f.raw.length ≤ limits.wsMaxMsgBytes ∧
    (h.window.arrive f.mono).count ≤ limits.wsMaxMsgPerMin :=
  decide_eq_true_iff

/-- A frame that passes both limits is counted. -/
theorem readFrame_window (lib : Library) (hpass : passes limits h f = true) :
    (readFrame lib limits h.window f.mono f.raw).1 = h.window.arrive f.mono := by
  obtain ⟨hsize, hrate⟩ := passes_iff.mp hpass
  unfold readFrame
  dsimp only
  rw [if_neg (not_lt.mpr hsize), if_neg (not_lt.mpr hrate)]
  split <;> rfl

/-- A frame that does not closes the connection. -/
theorem readFrame_closes (lib : Library) (hpass : passes limits h f = false) :
    ∃ code, (readFrame lib limits h.window f.mono f.raw).2 = .close code := by
  unfold readFrame
  by_cases hsize : limits.wsMaxMsgBytes < f.raw.length
  · rw [if_pos hsize]
    exact ⟨1009, rfl⟩
  · rw [if_neg hsize]
    dsimp only
    by_cases hrate : limits.wsMaxMsgPerMin < (h.window.arrive f.mono).count
    · rw [if_pos hrate]
      exact ⟨1013, rfl⟩
    · rw [passes_iff.mpr ⟨not_lt.mp hsize, not_lt.mp hrate⟩] at hpass
      cases hpass

theorem receive_of_refused (hserving : h.serving = true) (hpass : passes limits h f = false) :
    (receive lib limits h f).serving = false ∧
      (receive lib limits h f).processed = h.processed := by
  obtain ⟨code, hclose⟩ := readFrame_closes lib hpass
  unfold receive
  dsimp only
  rw [hserving, hpass, hclose]
  exact ⟨rfl, rfl⟩

theorem receive_of_passes (lib : Library) (hserving : h.serving = true)
    (hpass : passes limits h f = true) :
    (receive lib limits h f).window = h.window.arrive f.mono ∧
      (receive lib limits h f).processed = h.processed ++ [f.mono] := by
  rw [← readFrame_window lib hpass]
  unfold receive
  rw [hserving, hpass]
  exact ⟨rfl, rfl⟩

/-- The handler of the channel goes on exactly when this one does, with the same window. -/
theorem afterFrame_eq (hserving : h.serving = true) (hostId : Uuid) :
    Channel.afterFrame hostId (readFrame lib limits h.window f.mono f.raw).1
        (serveFrame f.db f.now f.dbUp (readFrame lib limits h.window f.mono f.raw).2).2 =
      if (receive lib limits h f).serving = true then
        .serving hostId (receive lib limits h f).window
      else .closing := by
  unfold receive
  rw [hserving]
  show Channel.afterFrame hostId _ _ = if decide (_ = Served.stay) = true then _ else _
  cases (serveFrame f.db f.now f.dbUp (readFrame lib limits h.window f.mono f.raw).2).2 with
  | stay => rfl
  | leave code => rfl

end

/-! ## What every run keeps -/

/-- While the connection is open every frame has been processed, the counter is that of the current
window of their times, and the last two windows hold no more than the limit. -/
structure Follows (limits : StreamLimits) (start : Int) (frames : List Frame) (h : Handler) :
    Prop where
  processed : h.processed = frames.map Frame.mono
  window : h.window = ⟨(windowsOf start frames).start, (windowsOf start frames).current.length⟩
  previous : (windowsOf start frames).previous.length ≤ limits.wsMaxMsgPerMin
  current : (windowsOf start frames).current.length ≤ limits.wsMaxMsgPerMin

section

variable {lib : Library} {limits : StreamLimits} {start : Int} {frames : List Frame} {f : Frame}

theorem windowsOf_snoc (start : Int) (frames : List Frame) (f : Frame) :
    windowsOf start (frames ++ [f]) = (windowsOf start frames).arrive minute f.mono := by
  unfold windowsOf
  rw [List.map_append]
  exact Windows.cut_snoc minute start (frames.map Frame.mono) f.mono

theorem serve_snoc (lib : Library) (limits : StreamLimits) (start : Int) (frames : List Frame)
    (f : Frame) : serve lib limits start (frames ++ [f]) =
      receive lib limits (serve lib limits start frames) f :=
  List.foldl_append ..

/-- The counter with one more frame. -/
theorem Follows.arrive {h : Handler} (hfollows : Follows limits start frames h) (f : Frame) :
    h.window.arrive f.mono = ⟨(windowsOf start (frames ++ [f])).start,
      (windowsOf start (frames ++ [f])).current.length⟩ := by
  rw [hfollows.window, windowsOf_snoc]
  unfold Window.arrive Windows.arrive minute
  split
  · rfl
  · rw [List.length_append, List.length_singleton]

theorem Follows.receive {h : Handler} (hfollows : Follows limits start frames h)
    (hserving : h.serving = true) (hpass : passes limits h f = true) :
    Follows limits start (frames ++ [f]) (receive lib limits h f) := by
  obtain ⟨hwindow, hprocessed⟩ := receive_of_passes lib hserving hpass
  have harrive := hfollows.arrive f
  have hcount := (passes_iff.mp hpass).2
  rw [harrive] at hcount
  refine ⟨?_, hwindow.trans harrive, ?_, hcount⟩
  · rw [hprocessed, hfollows.processed, List.map_append]
    rfl
  · rw [windowsOf_snoc]
    unfold Windows.arrive
    split
    · exact hfollows.current
    · exact hfollows.previous

/-- The handler processes the frame when it comes after these. -/
def Processes (lib : Library) (limits : StreamLimits) (start : Int) (before : List Frame)
    (f : Frame) : Prop :=
  (serve lib limits start before).serving = true ∧
    passes limits (serve lib limits start before) f = true

theorem processed_of_not (h : ¬ Processes lib limits start frames f) :
    (serve lib limits start (frames ++ [f])).serving = false ∧
      (serve lib limits start (frames ++ [f])).processed =
        (serve lib limits start frames).processed := by
  rw [serve_snoc]
  cases hserving : (serve lib limits start frames).serving with
  | false =>
    rw [receive_of_left hserving]
    exact ⟨hserving, rfl⟩
  | true =>
    have hpass : passes limits (serve lib limits start frames) f = false :=
      Bool.eq_false_iff.mpr fun hpass => h ⟨hserving, hpass⟩
    exact receive_of_refused hserving hpass

theorem serve_follows (hserving : (serve lib limits start frames).serving = true) :
    Follows limits start frames (serve lib limits start frames) := by
  induction frames using List.reverseRecOn with
  | nil => exact ⟨rfl, rfl, Nat.zero_le _, Nat.zero_le _⟩
  | append_singleton frames f ih =>
    by_cases hf : Processes lib limits start frames f
    · rw [serve_snoc]
      exact (ih hf.1).receive hf.1 hf.2
    · rw [(processed_of_not hf).1] at hserving
      cases hserving

theorem follows_of_processes (hf : Processes lib limits start frames f) :
    Follows limits start (frames ++ [f]) (receive lib limits (serve lib limits start frames) f) :=
  (serve_follows hf.1).receive hf.1 hf.2

theorem processed_of_processes (hf : Processes lib limits start frames f) :
    (serve lib limits start (frames ++ [f])).processed =
      (serve lib limits start frames).processed ++ [f.mono] := by
  rw [serve_snoc]
  exact (receive_of_passes lib hf.1 hf.2).2

/-- The frames that are processed are some of those that arrive, in their order. -/
theorem processed_sublist :
    (serve lib limits start frames).processed.Sublist (frames.map Frame.mono) := by
  induction frames using List.reverseRecOn with
  | nil => exact List.Sublist.refl _
  | append_singleton frames f ih =>
    rw [List.map_append]
    by_cases hf : Processes lib limits start frames f
    · rw [processed_of_processes hf]
      exact ih.append (List.Sublist.refl _)
    · rw [(processed_of_not hf).2]
      exact ih.trans (List.sublist_append_left _ _)

/-- What holds of every time that is processed, with those before it, holds of every frame that is
processed, with those before it. -/
theorem forall_processed {P : List Int → Int → Prop} :
    (∀ before t after, (serve lib limits start frames).processed = before ++ t :: after →
        P before t) ↔
      ∀ before f after, frames = before ++ f :: after → Processes lib limits start before f →
        P (before.map Frame.mono) f.mono := by
  induction frames using List.reverseRecOn with
  | nil =>
    constructor
    · exact fun _ before f after hsplit => by simp at hsplit
    · exact fun _ before t after hsplit => by simp [serve] at hsplit
  | append_singleton frames f ih =>
    rw [forall_split_snoc (F := fun before g => Processes lib limits start before g →
      P (before.map Frame.mono) g.mono), ← ih]
    by_cases hf : Processes lib limits start frames f
    · rw [processed_of_processes hf, forall_split_snoc (F := P), (serve_follows hf.1).processed]
      exact and_congr_right fun _ => (imp_iff_right hf).symm
    · rw [(processed_of_not hf).2]
      exact (and_iff_left fun h => absurd h hf).symm

/-- No minute holds more than `n` processed frames exactly when none does that ends with one. -/
theorem interval_le_iff (hclock : (start :: frames.map Frame.mono).Pairwise (· ≤ ·)) (n : Nat) :
    (∀ x, ((serve lib limits start frames).processed.filter fun t =>
        decide (x ≤ t ∧ t < x + minute)).length ≤ n) ↔
      ∀ before f after, frames = before ++ f :: after → Processes lib limits start before f →
        (Windows.within minute f.mono ((before ++ [f]).map Frame.mono)).length ≤ n := by
  have hsublist : (serve lib limits start frames).processed.Sublist (frames.map Frame.mono) :=
    processed_sublist
  rw [Windows.interval_le_iff ((List.pairwise_cons.mp hclock).2.sublist hsublist),
    forall_processed (P := fun before t =>
      (Windows.within minute t (before ++ [t])).length ≤ n)]
  simp only [List.map_append, List.map_cons, List.map_nil]

theorem minute_pos : 0 < minute := by decide

theorem cuts_windowsOf (hclock : (start :: frames.map Frame.mono).Pairwise (· ≤ ·)) :
    Windows.Cuts minute start (frames.map Frame.mono) (windowsOf start frames) :=
  Windows.cuts_cut minute_pos hclock

theorem mem_current (start : Int) (frames : List Frame) (f : Frame) :
    f.mono ∈ (windowsOf start (frames ++ [f])).current := by
  rw [windowsOf_snoc]
  unfold Windows.arrive
  split
  · exact List.mem_singleton_self _
  · exact List.mem_append_right _ (List.mem_singleton_self _)

theorem clock_of_split {before after : List Frame}
    (hclock : (start :: (before ++ f :: after).map Frame.mono).Pairwise (· ≤ ·)) :
    (start :: (before ++ [f]).map Frame.mono).Pairwise (· ≤ ·) := by
  rw [List.append_cons, List.map_append, ← List.cons_append, List.pairwise_append] at hclock
  exact hclock.1

/-- In every minute a connection has at most twice the frames that the setting allows processed. -/
theorem at_most_twice (hclock : (start :: frames.map Frame.mono).Pairwise (· ≤ ·)) (x : Int) :
    ((serve lib limits start frames).processed.filter fun t =>
      decide (x ≤ t ∧ t < x + minute)).length ≤ 2 * limits.wsMaxMsgPerMin := by
  revert x
  rw [interval_le_iff hclock]
  intro before f after hsplit hf
  subst hsplit
  have hnext := follows_of_processes hf
  exact (cuts_windowsOf (clock_of_split hclock)).within_le_twice (mem_current start before f)
    hnext.previous hnext.current

/-! ## The rate -/

/-- A connection keeps to the rate in every minute exactly when each frame that reaches it, and is
not too large, comes a minute after the frame `ws_max_msg_per_min` places before it, if that one
lies in the window before. -/
theorem rate_cap_iff (hclock : (start :: frames.map Frame.mono).Pairwise (· ≤ ·)) :
    (∀ x, ((serve lib limits start frames).processed.filter fun t =>
        decide (x ≤ t ∧ t < x + minute)).length ≤ limits.wsMaxMsgPerMin) ↔
      ∀ before f after, frames = before ++ f :: after →
        (serve lib limits start before).serving = true → f.raw.length ≤ limits.wsMaxMsgBytes →
        (windowsOf start (before ++ [f])).Apart minute limits.wsMaxMsgPerMin f.mono := by
  rw [interval_le_iff hclock]
  refine forall₃_congr fun before f after => forall_congr' fun hsplit => ?_
  subst hsplit
  have hclock := clock_of_split hclock
  have hwithin : (windowsOf start (before ++ [f])).current.length ≤ limits.wsMaxMsgPerMin → _ :=
    (cuts_windowsOf hclock).within_le_iff (List.pairwise_cons.mp hclock).2
      (mem_current start before f)
  constructor
  · intro h hserving hsize
    by_cases hrate : (windowsOf start (before ++ [f])).current.length ≤ limits.wsMaxMsgPerMin
    · apply (hwithin hrate).mp (h ⟨hserving, passes_iff.mpr ⟨hsize, ?_⟩⟩)
      rw [(serve_follows hserving).arrive f]
      exact hrate
    · -- the limiter refuses the frame, whatever came before
      intro i t hi hplace
      have hlt := (List.getElem?_eq_some_iff.mp hi).1
      omega
  · intro h hf
    have hnext := follows_of_processes hf
    exact (hwithin hnext.current).mpr (h hf.1 (passes_iff.mp hf.2).1)

end

/-- A frame of a type that the handler ignores, `second` seconds after the handshake. -/
def unknownFrame (second : Int) : Frame :=
  ⟨second * 1000000000, "\x7b\x7d".toList, 0, Channel.onlineDb, true⟩

def sampleLibrary : Library := .ofTable [("\x7b\x7d".toList, .obj [])] [] []

def twoAMinute : StreamLimits := ⟨1024 * 1024, 2⟩

/-- Two frames of the first window, and one that starts the next a minute after them. -/
def spread : List Frame := [unknownFrame 1, unknownFrame 1, unknownFrame 61]

/-- Two frames at the end of a window and two at the start of the next one. -/
def acrossReset : List Frame :=
  [unknownFrame 59, unknownFrame 59, unknownFrame 60, unknownFrame 60]

theorem rate_cap_spread : (0 :: spread.map Frame.mono).Pairwise (· ≤ ·) ∧
    ∀ x, ((serve sampleLibrary twoAMinute 0 spread).processed.filter fun t =>
      decide (x ≤ t ∧ t < x + minute)).length ≤ 2 := by
  have hclock : (0 :: spread.map Frame.mono).Pairwise (· ≤ ·) := by decide +kernel
  refine ⟨hclock, (rate_cap_iff hclock).mpr ?_⟩
  intro before f after hsplit _
  match before, hsplit with
  | [], h =>
    cases h
    decide +kernel
  | [_], h =>
    cases h
    decide +kernel
  | [_, _], h =>
    cases h
    decide +kernel
  | _ :: _ :: _ :: before, h =>
    have hlength := congrArg List.length h
    simp [spread] at hlength

/-- With two frames a minute allowed, four are processed within two seconds. -/
theorem rate_cap_exceeded : (0 :: acrossReset.map Frame.mono).Pairwise (· ≤ ·) ∧
    ¬ ∀ x, ((serve sampleLibrary twoAMinute 0 acrossReset).processed.filter fun t =>
      decide (x ≤ t ∧ t < x + minute)).length ≤ twoAMinute.wsMaxMsgPerMin := by
  refine ⟨by decide +kernel, fun h => ?_⟩
  have hfour : ¬ ((serve sampleLibrary twoAMinute 0 acrossReset).processed.filter fun t =>
      decide (59 * 1000000000 ≤ t ∧ t < 59 * 1000000000 + minute)).length ≤
        twoAMinute.wsMaxMsgPerMin := by
    decide +kernel
  exact hfour (h _)

end ZaqorinCore.Server.MessageRate
