import ZaqorinCore.Base.Layout
import ZaqorinCore.Text.Address

/-!
# Kernel records

The records that the probes submit, as `common.h` lays them out, and the loader that reads them,
`loader.go`. In C the five bodies are a union and share their bytes; in Go they are the fields of
a struct and follow one another. So the loader asks for 1348 bytes where a record has 1056, and
no record gets through: `no_record_agrees`, `run_silent`. Laid out as the Go struct, the same
fields are decoded as they should be: `decode_unpacked`.
-/

namespace ZaqorinCore.Agent

open Text Base

namespace Ebpf

/-! ## Bodies and header -/

abbrev Chars (n : Nat) := List.Vector UInt8 n

structure Header where
  tag : UInt32
  pid : UInt32
  uid : UInt32
  pad : UInt32
  comm : Chars 16

structure ExecveBody where
  argv0 : Chars 256
  argv1 : Chars 256
  argv2 : Chars 256
  argv3 : Chars 256

structure OpenatBody where
  filename : Chars 256

structure ConnectBody where
  dstIP : Chars 16
  dstPort : UInt32
  isV6 : UInt8

structure PtraceBody where
  targetPID : UInt32
  request : UInt32

structure SetuidBody where
  newUID : UInt32

open Layout

def header : Layout Header :=
  (u32le.pair (u32le.pair (u32le.pair (u32le.pair (array 16))))).named
    (fun p => ⟨p.1, p.2.1, p.2.2.1, p.2.2.2.1, p.2.2.2.2⟩)
    (fun h => (h.tag, h.pid, h.uid, h.pad, h.comm)) fun _ => rfl

def execveBody : Layout ExecveBody :=
  ((array 256).pair ((array 256).pair ((array 256).pair (array 256)))).named
    (fun p => ⟨p.1, p.2.1, p.2.2.1, p.2.2.2⟩)
    (fun b => (b.argv0, b.argv1, b.argv2, b.argv3)) fun _ => rfl

def openatBody : Layout OpenatBody :=
  (array 256).named (fun p => ⟨p⟩) (fun b => b.filename) fun _ => rfl

def connectBody : Layout ConnectBody :=
  ((array 16).pair (u32le.pair (u8.pair (padding 3)))).named
    (fun p => ⟨p.1, p.2.1, p.2.2.1⟩)
    (fun b => (b.dstIP, b.dstPort, b.isV6, ())) fun _ => rfl

def ptraceBody : Layout PtraceBody :=
  (u32le.pair u32le).named (fun p => ⟨p.1, p.2⟩) (fun b => (b.targetPID, b.request)) fun _ => rfl

def setuidBody : Layout SetuidBody :=
  u32le.named (fun p => ⟨p⟩) (fun b => b.newUID) fun _ => rfl

/-! ## The record in C -/

inductive Probe
  | execve
  | openat
  | connect
  | ptrace
  | setuid
  deriving DecidableEq

/-- `ZAQORIN_TAG_*`, and the constants of `loader.go`. -/
def Probe.tag : Probe → UInt32
  | .execve => 0x78656500
  | .openat => 0x786f6600
  | .connect => 0x78636e00
  | .ptrace => 0x78707400
  | .setuid => 0x78737500

/-- The size of the union is that of its largest member. -/
def unionSize : Nat :=
  max execveBody.size (max openatBody.size (max connectBody.size
    (max ptraceBody.size setuidBody.size)))

/-- A `bpf_event` that a probe submits. -/
structure Record where
  probe : Probe
  pid : UInt32
  uid : UInt32
  pad : UInt32
  comm : Chars 16
  body : Chars unionSize

namespace Record

def hdr (r : Record) : Header := ⟨r.probe.tag, r.pid, r.uid, r.pad, r.comm⟩

/-- The record in the ring buffer. -/
def bytes (r : Record) : Bytes := header.put r.hdr ++ r.body.toList

theorem bytes_length (r : Record) : r.bytes.length = 1056 := by
  rw [bytes, List.length_append, header.length_put, r.body.toList_length]
  rfl

end Record

/-! ## The loader -/

structure BpfEventBody where
  execve : ExecveBody
  openat : OpenatBody
  connect : ConnectBody
  ptrace : PtraceBody
  setuid : SetuidBody

structure BpfEvent where
  hdr : Header
  body : BpfEventBody

def bpfEventBody : Layout BpfEventBody :=
  (execveBody.pair (openatBody.pair (connectBody.pair (ptraceBody.pair setuidBody)))).named
    (fun p => ⟨p.1, p.2.1, p.2.2.1, p.2.2.2.1, p.2.2.2.2⟩)
    (fun b => (b.execve, b.openat, b.connect, b.ptrace, b.setuid)) fun _ => rfl

def bpfEvent : Layout BpfEvent :=
  (header.pair bpfEventBody).named (fun p => ⟨p.1, p.2⟩) (fun e => (e.hdr, e.body)) fun _ => rfl

theorem bpfEvent_size : bpfEvent.size = 1348 := rfl

/-- `event.Event`; the keys of the metadata are distinct. -/
structure Event where
  schema : Bytes
  id : Bytes
  timestamp : Int
  hostID : Bytes
  source : Bytes
  raw : Bytes
  metadata : List (Bytes × Bytes)

/-- What `event.New` takes from outside: the identifier, the clock, and the host's name. -/
structure Env where
  id : Bytes
  now : Int
  hostID : Bytes

def Event.new (env : Env) (source raw : Bytes) : Event :=
  ⟨lit "1.0", env.id, env.now, env.hostID, source, raw, []⟩

/-- The text up to the first NUL. -/
def cStr (b : Bytes) : Bytes :=
  match b.idxOf? 0 with
  | some i => b.take i
  | none => b

def decimal (n : Nat) : Bytes := utf8 (itoa n)

/-- The two low bytes swapped. -/
def hostPort (port : UInt32) : UInt32 :=
  ((port >>> 8) &&& (0xff : UInt32)) ||| ((port &&& (0xff : UInt32)) <<< 8)

def dstIP (b : ConnectBody) : Bytes :=
  if b.isV6 = 0 then utf8 (ipString (b.dstIP.toList.take 4)) else utf8 (ipString b.dstIP.toList)

/-- The metadata that every record has. -/
def headerFields (h : Header) : List (Bytes × Bytes) :=
  [(lit "pid", decimal h.pid.toNat), (lit "uid", decimal h.uid.toNat),
    (lit "comm", cStr h.comm.toList)]

/-- The switch of `decode`: source, raw text and metadata. -/
def describe (be : BpfEvent) : Option (Bytes × Bytes × List (Bytes × Bytes)) :=
  if be.hdr.tag = Probe.execve.tag then
    let b := be.body.execve
    some (lit "ebpf/execve", cStr b.argv0.toList, headerFields be.hdr ++
      [(lit "argv0", cStr b.argv0.toList), (lit "argv1", cStr b.argv1.toList),
        (lit "argv2", cStr b.argv2.toList), (lit "argv3", cStr b.argv3.toList)])
  else if be.hdr.tag = Probe.openat.tag then
    let fn := cStr be.body.openat.filename.toList
    some (lit "ebpf/openat", fn, headerFields be.hdr ++ [(lit "filename", fn)])
  else if be.hdr.tag = Probe.connect.tag then
    let port := decimal (hostPort be.body.connect.dstPort).toNat
    let ip := dstIP be.body.connect
    some (lit "ebpf/connect", ip ++ lit ":" ++ port, headerFields be.hdr ++
      [(lit "dst_ip", ip), (lit "dst_port", port)])
  else if be.hdr.tag = Probe.ptrace.tag then
    let target := decimal be.body.ptrace.targetPID.toNat
    let request := decimal be.body.ptrace.request.toNat
    some (lit "ebpf/ptrace", lit "ptrace req=" ++ request ++ lit " target=" ++ target,
      headerFields be.hdr ++ [(lit "target_pid", target), (lit "request", request)])
  else if be.hdr.tag = Probe.setuid.tag then
    let newUID := decimal be.body.setuid.newUID.toNat
    some (lit "ebpf/setuid", lit "setuid " ++ decimal be.hdr.uid.toNat ++ lit " -> " ++ newUID,
      headerFields be.hdr ++ [(lit "new_uid", newUID)])
  else none

def decode (env : Env) (raw : Bytes) : Option (Event × Bytes) :=
  match bpfEvent.read raw with
  | none => none
  | some be =>
    match describe be with
    | none => none
    | some (source, text, metadata) =>
      some ({ Event.new env [] [] with source, raw := text, metadata }, source)

/-- The events that the loop of `Run` hands on, for the samples it reads. -/
def run (samples : List (Env × Bytes)) : List Event :=
  samples.filterMap fun (env, raw) =>
    if raw.length < 32 then none else (decode env raw).map Prod.fst

/-! ## What a record carries -/

namespace Record

def byte (r : Record) (offset : Nat) : Nat := (r.body.toList.getD offset 0).toNat

def word (r : Record) (offset : Nat) : Nat := leNat ((r.body.toList.drop offset).take 4)

/-- A string of the body, cut at its first NUL. -/
def text (r : Record) (offset : Nat) : Bytes :=
  ((r.body.toList.drop offset).take 256).takeWhile (· != 0)

/-- An IPv4 address is in the first four bytes of the sixteen. -/
def address (r : Record) : Bytes :=
  utf8 (ipString (r.body.toList.take (if r.byte 20 = 0 then 4 else 16)))

/-- The fields of a record as metadata; the port is in network order. -/
def fields (r : Record) : List (Bytes × Bytes) :=
  [(lit "pid", decimal r.pid.toNat), (lit "uid", decimal r.uid.toNat),
    (lit "comm", r.comm.toList.takeWhile (· != 0))] ++
  match r.probe with
  | .execve => [(lit "argv0", r.text 0), (lit "argv1", r.text 256), (lit "argv2", r.text 512),
      (lit "argv3", r.text 768)]
  | .openat => [(lit "filename", r.text 0)]
  | .connect => [(lit "dst_ip", r.address), (lit "dst_port", decimal (256 * r.byte 16 + r.byte 17))]
  | .ptrace => [(lit "target_pid", decimal (r.word 0)), (lit "request", decimal (r.word 4))]
  | .setuid => [(lit "new_uid", decimal (r.word 0))]

/-- The loader decodes the record to an event with exactly its fields. -/
def Agrees (env : Env) (r : Record) : Prop :=
  ∃ e source, decode env r.bytes = some (e, source) ∧ e.metadata = r.fields

end Record

/-! ## No record agrees -/

theorem decode_short (env : Env) {raw : Bytes} (h : raw.length < 1348) : decode env raw = none := by
  have hread : bpfEvent.read raw = none := by
    rw [bpfEvent.read_eq_none_iff, bpfEvent_size]
    exact h
  rw [decode, hread]

/-- The Go struct is longer than any record. -/
theorem decode_record (env : Env) (r : Record) : decode env r.bytes = none := by
  apply decode_short
  rw [r.bytes_length]
  omega

theorem no_record_agrees (env : Env) (r : Record) : ¬ r.Agrees env := by
  rintro ⟨e, source, hdecode, -⟩
  rw [decode_record] at hdecode
  cases hdecode

/-- `su` becomes root. -/
def setuidRecord : Record :=
  ⟨.setuid, 60, 1000, 0, ⟨lit "su" ++ List.replicate 14 0, by decide⟩,
    List.Vector.replicate unionSize 0⟩

theorem setuid_record_dropped :
    setuidRecord.bytes.length = 1056 ∧
      decode ⟨lit "e1", 0, lit "host"⟩ setuidRecord.bytes = none ∧
      ¬ setuidRecord.Agrees ⟨lit "e1", 0, lit "host"⟩ := by
  have hnone := decode_record ⟨lit "e1", 0, lit "host"⟩ setuidRecord
  refine ⟨setuidRecord.bytes_length, hnone, ?_⟩
  rintro ⟨e, source, hdecode, -⟩
  rw [hnone] at hdecode
  cases hdecode

/-- Whatever the probes submit, `Run` hands nothing on. -/
theorem run_silent (records : List (Env × Record)) :
    run (records.map fun (env, r) => (env, r.bytes)) = [] := by
  rw [run, List.filterMap_eq_nil_iff]
  rintro ⟨env, raw⟩ hmem
  obtain ⟨⟨env', r⟩, -, heq⟩ := List.mem_map.mp hmem
  cases heq
  dsimp only
  rw [decode_record, Option.map_none, ite_self]

/-! ## The same fields in the Go layout -/

/-- The Go struct that holds what each member of the union reads. -/
def Record.unpacked (r : Record) : BpfEvent :=
  let b := r.body.toList
  ⟨r.hdr, execveBody.get b, openatBody.get b, connectBody.get b, ptraceBody.get b,
    setuidBody.get b⟩

theorem cStr_eq (b : Bytes) : cStr b = b.takeWhile (· != 0) := by
  unfold cStr
  induction b with
  | nil => rfl
  | cons x b ih =>
    rw [List.idxOf?_cons]
    by_cases hx : x = 0
    · subst hx
      simp
    · have hne : (x == 0) = false := by simpa using hx
      rw [hne, List.takeWhile_cons, ← ih]
      cases hi : b.idxOf? 0 with
      | none => simp [hx]
      | some i => simp [hx]

theorem hostPort_toNat (port : UInt32) :
    (hostPort port).toNat = 256 * (port.toNat % 256) + port.toNat / 256 % 256 := by
  have hlow : (port.toNat % 256) <<< 8 = 256 * (port.toNat % 256) := by
    rw [Nat.shiftLeft_eq]
    omega
  have hmask : ∀ n : Nat, n &&& 255 = n % 256 := fun n => Nat.and_two_pow_sub_one_eq_mod n 8
  have hshift : (256 * (port.toNat % 256)) % 4294967296 = 256 * (port.toNat % 256) := by omega
  have hor := Nat.two_pow_add_eq_or_of_lt (i := 8) (b := port.toNat / 256 % 256) (by omega)
    (port.toNat % 256)
  unfold hostPort
  simp only [UInt32.toNat_or, UInt32.toNat_and, UInt32.toNat_shiftRight, UInt32.toNat_shiftLeft]
  simp [hmask, hlow, hshift, Nat.shiftRight_eq_div_pow]
  rw [Nat.lor_comm, ← hor]

namespace Record

theorem drop_length (r : Record) (offset : Nat) :
    (r.body.toList.drop offset).length = 1024 - offset := by
  rw [List.length_drop, r.body.toList_length]
  rfl

/-- A string of the body, as the loader reads it from an array. -/
theorem cStr_array (r : Record) (offset : Nat) (h : offset + 256 ≤ 1024) :
    cStr ((array 256).get (r.body.toList.drop offset)).toList = r.text offset := by
  have hle : 256 ≤ (r.body.toList.drop offset).length := by
    rw [r.drop_length]
    omega
  rw [cStr_eq, toList_get_array hle]
  rfl

theorem toNat_word (r : Record) (offset : Nat) :
    (u32le.get (r.body.toList.drop offset)).toNat = r.word offset :=
  toNat_get_u32le _

theorem hostPort_word (r : Record) :
    (hostPort (u32le.get (r.body.toList.drop 16))).toNat = 256 * r.byte 16 + r.byte 17 := by
  have hlen := r.drop_length 16
  have hbyte : ∀ i, r.byte (16 + i) = ((r.body.toList.drop 16).getD i 0).toNat := by
    intro i
    rw [byte, List.getD_eq_getElem?_getD, List.getD_eq_getElem?_getD, List.getElem?_drop]
  rw [hostPort_toNat, toNat_word, word, hbyte 0, hbyte 1]
  match r.body.toList.drop 16, hlen with
  | b₀ :: b₁ :: b₂ :: b₃ :: rest, _ =>
    have h₀ : b₀.toNat < 256 := b₀.toNat_lt
    have h₁ : b₁.toNat < 256 := b₁.toNat_lt
    simp only [List.take_succ_cons, List.take_zero, leNat, List.getD_cons_zero,
      List.getD_cons_succ]
    omega

theorem dstIP_unpacked (r : Record) : dstIP r.unpacked.body.connect = r.address := by
  have hle : 16 ≤ r.body.toList.length := by
    rw [r.body.toList_length]
    decide
  have hip : r.unpacked.body.connect.dstIP.toList = r.body.toList.take 16 := toList_get_array hle
  have hv6 : r.unpacked.body.connect.isV6 = 0 ↔ r.byte 20 = 0 := by
    have hget : r.unpacked.body.connect.isV6 = r.body.toList.getD 20 0 := by
      show ((r.body.toList.drop 16).drop 4).headD 0 = _
      rw [List.drop_drop, List.headD_eq_head?_getD, List.head?_drop, List.getD_eq_getElem?_getD]
    rw [hget, byte, ← UInt8.toNat_inj]
    rfl
  unfold dstIP address
  rw [hip]
  by_cases h : r.byte 20 = 0
  · rw [if_pos (hv6.mpr h), if_pos h, List.take_take]
    rfl
  · rw [if_neg (mt hv6.mp h), if_neg h]

theorem execve_unpacked (r : Record) :
    cStr r.unpacked.body.execve.argv0.toList = r.text 0 ∧
    cStr r.unpacked.body.execve.argv1.toList = r.text 256 ∧
    cStr r.unpacked.body.execve.argv2.toList = r.text 512 ∧
    cStr r.unpacked.body.execve.argv3.toList = r.text 768 := by
  refine ⟨r.cStr_array 0 (by omega), r.cStr_array 256 (by omega), ?_, ?_⟩
  · rw [← r.cStr_array 512 (by omega), ← List.drop_drop (i := 256) (j := 256)]
    rfl
  · rw [← r.cStr_array 768 (by omega), ← List.drop_drop (i := 512) (j := 256),
      ← List.drop_drop (i := 256) (j := 256)]
    rfl

theorem describe_unpacked (r : Record) :
    ∃ source text, describe r.unpacked = some (source, text, r.fields) := by
  have htag : r.unpacked.hdr.tag = r.probe.tag := rfl
  have hhdr : headerFields r.unpacked.hdr = [(lit "pid", decimal r.pid.toNat),
      (lit "uid", decimal r.uid.toNat), (lit "comm", r.comm.toList.takeWhile (· != 0))] := by
    rw [headerFields, cStr_eq]
    rfl
  unfold describe fields
  rw [htag, hhdr]
  cases hp : r.probe with
  | execve =>
    obtain ⟨h₀, h₁, h₂, h₃⟩ := r.execve_unpacked
    rw [if_pos rfl]
    dsimp only
    rw [h₀, h₁, h₂, h₃]
    exact ⟨_, _, rfl⟩
  | openat =>
    have hfilename : cStr r.unpacked.body.openat.filename.toList = r.text 0 :=
      r.cStr_array 0 (by omega)
    rw [if_neg (by decide), if_pos rfl, hfilename]
    exact ⟨_, _, rfl⟩
  | connect =>
    have hport : (hostPort r.unpacked.body.connect.dstPort).toNat =
        256 * r.byte 16 + r.byte 17 := r.hostPort_word
    rw [if_neg (by decide), if_neg (by decide), if_pos rfl, hport, r.dstIP_unpacked]
    exact ⟨_, _, rfl⟩
  | ptrace =>
    have htarget : r.unpacked.body.ptrace.targetPID.toNat = r.word 0 := r.toNat_word 0
    have hrequest : r.unpacked.body.ptrace.request.toNat = r.word 4 := r.toNat_word 4
    rw [if_neg (by decide), if_neg (by decide), if_neg (by decide), if_pos rfl, htarget, hrequest]
    exact ⟨_, _, rfl⟩
  | setuid =>
    have huid : r.unpacked.body.setuid.newUID.toNat = r.word 0 := r.toNat_word 0
    rw [if_neg (by decide), if_neg (by decide), if_neg (by decide), if_neg (by decide), if_pos rfl,
      huid]
    exact ⟨_, _, rfl⟩

end Record

/-- A buffer with the Go struct's layout is decoded to the fields of the record. -/
theorem decode_unpacked (env : Env) (r : Record) :
    ∃ e source, decode env (bpfEvent.put r.unpacked) = some (e, source) ∧
      e.metadata = r.fields := by
  have hread : bpfEvent.read (bpfEvent.put r.unpacked) = some r.unpacked := by
    simpa using bpfEvent.read_put r.unpacked []
  obtain ⟨source, text, hdescribe⟩ := r.describe_unpacked
  refine ⟨{ Event.new env [] [] with source, raw := text, metadata := r.fields }, source, ?_, rfl⟩
  rw [decode, hread]
  dsimp only
  rw [hdescribe]

end Ebpf

end ZaqorinCore.Agent
