import StridedArray.Proofs.Create

/-!
# A storage is a fixed number of slots

Whatever is called on a storage, it stays a sequence of as many slots as it
was made with. A call with an index beyond them is refused, and so is a
value of another kind; nothing else can fail. A slot holds what was last
written to it with success, bit for bit, and a zero before that
(`Storage.slots_of_run`).

What carries this over a run is `Storage.Holds`: type, number of slots,
and what every slot holds. `Storage.Holds.perform` is its step.

The program finds a slot as a range of bytes, whose bounds are words, and
reads or writes that part of the bytes. `Storage.getByRange` and
`Storage.setByRange` spell this out with every check. None of the checks
fails on a slot that is there, as long as the storage fits into the address
space.
-/

namespace StridedArray

/-- Bytes that are all zero stand for zero. -/
theorem LittleEndian.decode_replicate (n : Nat) : decode (List.replicate n 0) = 0 := by
  induction n with
  | zero => rfl
  | succ n ih =>
    rw [List.replicate_succ, decode, ih]
    rfl

namespace SlotValue

/-- **The zero of a kind.** -/
def zero : SlotKind → SlotValue
  | .bool => bool false
  | .float k => float k 0
  | .int k => int k 0

theorem ofPattern_zero (k : SlotKind) : ofPattern k 0 = zero k := by
  cases k <;> rfl

end SlotValue

namespace Storage

/-! ## Calls -/

/-- **A call to a storage.** -/
inductive Call where
  /-- Reads a slot. -/
  | get (index : Nat)
  /-- Writes a slot. -/
  | set (index : Nat) (v : SlotValue)
  /-- Reads a slot as a double. -/
  | readDouble (index : Nat)
  /-- Writes a slot from a double. -/
  | writeDouble (index : Nat) (x : Double)
  /-- Checks an index. -/
  | checkSlot (index : Nat)
deriving DecidableEq, Repr

/-- **What a call gives back.** -/
inductive Answer where
  /-- The value of a slot. -/
  | value (v : SlotValue)
  /-- The value of a slot as a double. -/
  | double (x : Double)
  /-- Nothing but that the call succeeded. -/
  | done
deriving DecidableEq, Repr

/-- The answer to a write and the storage after it, which is as before if the write failed. -/
def written (s : Storage) : Outcome Storage → Outcome Answer × Storage
  | .ok s' => (.ok .done, s')
  | .error fault => (.error fault, s)

/-- **The answer to a call and the storage after it.** -/
def perform (s : Storage) : Call → Outcome Answer × Storage
  | .get i => (.value <$> s.get i, s)
  | .set i v => s.written (s.set i v)
  | .readDouble i => (.double <$> s.readDouble i, s)
  | .writeDouble i x => s.written (s.writeDouble i x)
  | .checkSlot i => ((fun _ => .done) <$> s.checkSlot i, s)

/-- **A call that was made**, with its answer. -/
structure Event where
  /-- The call. -/
  call : Call
  /-- Its answer. -/
  answer : Outcome Answer

/-- **What happened on some calls in a row**, in order, and the storage after them. -/
def run (s : Storage) : List Call → List Event × Storage
  | [] => ([], s)
  | call :: rest =>
    let (answer, next) := s.perform call
    let (log, last) := next.run rest
    (⟨call, answer⟩ :: log, last)

theorem run_cons (s : Storage) (call : Call) (rest : List Call) :
    s.run (call :: rest) = (⟨call, (s.perform call).1⟩ :: ((s.perform call).2.run rest).1,
      ((s.perform call).2.run rest).2) := rfl

namespace Call

/-- The index of the slot that the call is about. -/
def index : Call → Nat
  | get i | set i _ | readDouble i | writeDouble i _ | checkSlot i => i

/-- The value that the call is to write, if it is a write. -/
def value? (kind : SlotKind) : Call → Option SlotValue
  | set _ v => some v
  | writeDouble _ x => some (.ofDouble kind x)
  | get _ | readDouble _ | checkSlot _ => none

/-- **The answer to the call that is to be expected** of slots of the given type and number, with
given contents. -/
def expected (type : ElementType) (size : Nat) (held : Nat → SlotValue) (call : Call) :
    Outcome Answer :=
  if size ≤ call.index then refuse (.outOfBounds call.index size)
  else match call with
    | get i => .ok (.value (held i))
    | set _ v =>
      if v.kind = type.slotKind then .ok .done
      else refuse (.typeMismatch type.slotKind.elementType v.elementType)
    | readDouble i => .ok (.double (held i).toDouble)
    | writeDouble _ _ | checkSlot _ => .ok .done

end Call

/-- What is to be expected is never a trap. -/
theorem Call.expected_ne_trap {type : ElementType} {size : Nat} {held : Nat → SlotValue}
    {call : Call} {t : Trap} : call.expected type size held ≠ trap t := by
  unfold expected
  split
  · exact Outcome.refuse_ne_trap _ t
  · cases call with
    | set i v =>
      show (if _ then _ else _) ≠ _
      split
      · exact (trap_ne_ok t _).symm
      · exact Outcome.refuse_ne_trap _ t
    | get | readDouble | writeDouble | checkSlot => exact (trap_ne_ok t _).symm

/-- **A call that fails leaves the storage as it is.** -/
theorem perform_of_error {s s' : Storage} {call : Call} {answer : Outcome Answer}
    (h : s.perform call = (answer, s')) (hfailed : answer.isOk = false) : s' = s := by
  have hwritten : ∀ result : Outcome Storage, s.written result = (answer, s') → s' = s := by
    rintro (fault | written) hresult
    · exact (congrArg Prod.snd hresult).symm
    · obtain ⟨rfl, -⟩ := Prod.mk.inj hresult
      exact absurd hfailed.symm Bool.false_ne_true
  cases call with
  | set i v => exact hwritten _ h
  | writeDouble i x => exact hwritten _ h
  | get | readDouble | checkSlot => exact (congrArg Prod.snd h).symm

/-- The value that was written to a slot, if one was. -/
def Event.stored? (kind : SlotKind) (i : Nat) (e : Event) : Option SlotValue :=
  if e.call.index = i ∧ e.answer.isOk then e.call.value? kind else none

theorem Event.stored?_error (kind : SlotKind) (i : Nat) (call : Call) (fault : Fault) :
    stored? kind i ⟨call, .error fault⟩ = none :=
  if_neg fun h => Bool.false_ne_true h.2

theorem Event.stored?_ok (kind : SlotKind) (i : Nat) (call : Call) (answer : Answer) :
    stored? kind i ⟨call, .ok answer⟩ = if call.index = i then call.value? kind else none :=
  if_congr (and_iff_left rfl) rfl rfl

/-- **The value last written to a slot** with success, or the one held before. -/
def lastStored (kind : SlotKind) (held : Nat → SlotValue) (log : List Event) (i : Nat) :
    SlotValue :=
  (log.reverse.findSome? (Event.stored? kind i)).getD (held i)

/-- The first call of a log is followed by the others. -/
theorem lastStored_cons (kind : SlotKind) (held : Nat → SlotValue) (e : Event) (log : List Event) :
    lastStored kind held (e :: log) = lastStored kind (lastStored kind held [e]) log := by
  funext i
  simp only [lastStored, List.reverse_cons, List.findSome?_append, Option.getD_or,
    List.reverse_nil, List.nil_append]

theorem lastStored_singleton (kind : SlotKind) (held : Nat → SlotValue) (e : Event) (i : Nat) :
    lastStored kind held [e] i = (e.stored? kind i).getD (held i) := by
  rw [lastStored, List.reverse_singleton, List.findSome?_singleton]

/-- A call stores nothing in another slot than its own. -/
theorem lastStored_of_ne {kind : SlotKind} {call : Call} {i : Nat} (held : Nat → SlotValue)
    (answer : Outcome Answer) (h : call.index ≠ i) :
    lastStored kind held [⟨call, answer⟩] i = held i := by
  rw [lastStored_singleton, Event.stored?, if_neg fun hthis => h hthis.1, Option.getD_none]

/-- A call that fails stores nothing. -/
theorem lastStored_error (kind : SlotKind) (held : Nat → SlotValue) (call : Call) (fault : Fault) :
    lastStored kind held [⟨call, .error fault⟩] = held := by
  funext i
  rw [lastStored_singleton, Event.stored?_error, Option.getD_none]

/-- A call that is no write stores nothing. -/
theorem lastStored_of_read {kind : SlotKind} {call : Call} (hread : call.value? kind = none)
    (held : Nat → SlotValue) (answer : Outcome Answer) :
    lastStored kind held [⟨call, answer⟩] = held := by
  funext i
  rw [lastStored_singleton, Event.stored?, hread, ite_self, Option.getD_none]

/-- A write that succeeds stores its value in its slot. -/
theorem lastStored_of_write {kind : SlotKind} {call : Call} {v : SlotValue}
    (hwrite : call.value? kind = some v) (held : Nat → SlotValue) (answer : Answer) :
    lastStored kind held [⟨call, .ok answer⟩] = Function.update held call.index v := by
  funext i
  rw [lastStored_singleton, Event.stored?_ok, hwrite, Function.update_apply]
  rcases eq_or_ne i call.index with rfl | hi
  · rw [if_pos rfl, if_pos rfl, Option.getD_some]
  · rw [if_neg hi.symm, if_neg hi, Option.getD_none]

/-! ## What the slots hold -/

/-- **The storage is a sequence of slots** of the given type and number, with the given contents,
and fits into the address space. -/
structure Holds (s : Storage) (type : ElementType) (size : Nat) (held : Nat → SlotValue) :
    Prop where
  /-- The type is the given one. -/
  type_eq : s.type = type
  /-- So is the number of slots. -/
  len_eq : s.len = size
  /-- The bytes can be addressed. -/
  addressable : s.bytes.length < Word.addressLimit
  /-- Every slot has its content. -/
  get_eq : ∀ i < size, s.get i = .ok (held i)

variable {type : ElementType} {size : Nat} {held : Nat → SlotValue} {s s₀ : Storage}

/-- **A storage of zeros holds zeros.** -/
theorem holds_of_zeros (h : zeros type size = .ok s) :
    s.Holds type size fun _ => .zero type.slotKind := by
  obtain ⟨hlimit, rfl⟩ := zeros_eq_ok.mp h
  have hlen := len_zeros type size
  refine ⟨rfl, hlen, by rwa [List.length_replicate], fun i hi => ?_⟩
  have hslot : (i + 1) * type.slotBytes ≤ size * type.slotBytes := Nat.mul_le_mul_right _ hi
  have hroom : type.slotBytes ≤ size * type.slotBytes - i * type.slotBytes := by
    rw [Nat.succ_mul] at hslot
    omega
  rw [get, checkSlot_of_lt (by rwa [hlen])]
  show SlotValue.decode type.slotKind (((List.replicate (size * type.slotBytes) 0).drop
    (i * type.slotBytes)).take type.slotBytes) = _
  rw [List.drop_replicate, List.take_replicate, Nat.min_eq_left hroom,
    SlotValue.decode_of_le (by rw [List.length_replicate]; exact Nat.le_refl _),
    List.take_replicate, LittleEndian.decode_replicate, SlotValue.ofPattern_zero]

namespace Holds

variable (h : s.Holds type size held)

include h

/-- Every slot holds a value of the kind of the slots. -/
theorem kind_eq {i : Nat} (hi : i < size) : (held i).kind = type.slotKind := by
  obtain ⟨v, hget, hkind⟩ := get_of_lt (h.len_eq.symm ▸ hi)
  rw [h.get_eq i hi] at hget
  rw [Except.ok.inj hget, hkind, h.type_eq]

/-- **A write**: the slot holds the value, and the others what they held. -/
theorem replace {i : Nat} {v : SlotValue} (hi : i < size) (hv : v.kind = type.slotKind) :
    (s.replace i v.encode).Holds type size (Function.update held i v) := by
  have hi' : i < s.len := h.len_eq.symm ▸ hi
  have hv' : v.kind = s.type.slotKind := h.type_eq.symm ▸ hv
  refine ⟨h.type_eq, (len_replace hi' hv').trans h.len_eq, ?_, fun j hj => ?_⟩
  · rw [length_replace hi' hv']
    exact h.addressable
  · rw [get_replace hi' hv' (h.len_eq.symm ▸ hj), Function.update_apply, h.get_eq j hj]
    split <;> rfl

/-- An index is checked against the number of slots. -/
theorem checkSlot_eq (i : Nat) :
    s.checkSlot i = if size ≤ i then refuse (.outOfBounds i size) else .ok () := by
  rw [checkSlot, h.len_eq]

/-- **How a write ends.** -/
theorem set_eq (i : Nat) (v : SlotValue) :
    s.set i v = if size ≤ i then refuse (.outOfBounds i size)
      else if v.kind = type.slotKind then .ok (s.replace i v.encode)
      else refuse (.typeMismatch type.slotKind.elementType v.elementType) := by
  rw [set, h.checkSlot_eq, h.type_eq, ite_not]
  split <;> rfl

/-- **How a read ends.** -/
theorem get_eq_ite (i : Nat) :
    s.get i = if size ≤ i then refuse (.outOfBounds i size) else .ok (held i) := by
  split
  · next hi => rw [get_of_ge (h.len_eq.symm ▸ hi), h.len_eq]
  · next hi => exact h.get_eq i (Nat.lt_of_not_le hi)

/-- A call that is no write leaves the storage as it is, and is answered as expected. -/
theorem perform_of_read {call : Call} (hread : call.value? type.slotKind = none) :
    s.perform call = (call.expected type size held, s) := by
  cases call with
  | get i =>
    show (_ <$> s.get i, s) = _
    rw [h.get_eq_ite, Call.expected, Call.index]
    split <;> rfl
  | readDouble i =>
    show (_ <$> s.readDouble i, s) = _
    rw [readDouble, h.get_eq_ite, Call.expected, Call.index]
    split <;> rfl
  | checkSlot i =>
    show (_ <$> s.checkSlot i, s) = _
    rw [h.checkSlot_eq, Call.expected, Call.index]
    split <;> rfl
  | set i v => exact absurd hread (Option.some_ne_none _)
  | writeDouble i x => exact absurd hread (Option.some_ne_none _)

/-- A write is a write of a slot value. -/
theorem perform_of_write {call : Call} {v : SlotValue}
    (hwrite : call.value? type.slotKind = some v) :
    s.perform call = s.written (s.set call.index v)
      ∧ call.expected type size held = if size ≤ call.index then
          refuse (.outOfBounds call.index size)
        else if v.kind = type.slotKind then .ok .done
        else refuse (.typeMismatch type.slotKind.elementType v.elementType) := by
  cases call with
  | set i v' =>
    obtain rfl := Option.some.inj hwrite
    exact ⟨rfl, rfl⟩
  | writeDouble i x =>
    obtain rfl := Option.some.inj hwrite
    rw [perform, writeDouble, h.type_eq, if_pos (SlotValue.kind_ofDouble _ _)]
    exact ⟨rfl, rfl⟩
  | get | readDouble | checkSlot => exact absurd hwrite.symm (Option.some_ne_none v)

/-- **A call is answered as expected**, and then the slots hold what they held, unless the call has
written one. -/
theorem perform (call : Call) : (s.perform call).1 = call.expected type size held
    ∧ (s.perform call).2.Holds type size
      (lastStored type.slotKind held [⟨call, (s.perform call).1⟩]) := by
  have hfails : ∀ e : ArrayError,
      s.Holds type size (lastStored type.slotKind held [⟨call, refuse e⟩]) := fun e => by
    rw [refuse, lastStored_error]
    exact h
  cases hvalue : call.value? type.slotKind with
  | none =>
    rw [h.perform_of_read hvalue, lastStored_of_read hvalue]
    exact ⟨rfl, h⟩
  | some v =>
    obtain ⟨hperform, hexpected⟩ := h.perform_of_write hvalue
    rw [hperform, hexpected, h.set_eq]
    split
    · exact ⟨rfl, hfails _⟩
    · next hi =>
      split
      · next hv =>
        refine ⟨rfl, ?_⟩
        show (s.replace call.index v.encode).Holds type size
          (lastStored type.slotKind held [⟨call, .ok .done⟩])
        rw [lastStored_of_write hvalue]
        exact h.replace (Nat.lt_of_not_le hi) hv
      · exact ⟨rfl, hfails _⟩

/-- **After some calls the slots hold what was last written**, or what they held before. -/
theorem run (calls : List Call) :
    (s.run calls).2.Holds type size (lastStored type.slotKind held (s.run calls).1) := by
  -- the first call leaves slots that hold something else, from which the others go on
  induction calls generalizing s held with
  | nil => exact h
  | cons call calls ih =>
    rw [run_cons, lastStored_cons]
    exact ih (h.perform call).2

end Holds

/-! ## Ranges of bytes -/

/-- The bytes from one index up to another, of which the second must not lie before the first nor
beyond the end. -/
def slice (bytes : List UInt8) (start stop : Nat) : Outcome (List UInt8) :=
  if start ≤ stop ∧ stop ≤ bytes.length then .ok ((bytes.drop start).take (stop - start))
  else trap .subscript

/-- **The bounds of the bytes of a slot**, as words. -/
def byteRange (s : Storage) (index : Nat) : Outcome (Nat × Nat) := do
  let start ← Word.unsigned (index * s.type.slotBytes)
  let next ← Word.unsigned (index + 1)
  let stop ← Word.unsigned (next * s.type.slotBytes)
  return (start, stop)

/-- **The value of a slot, by the range of its bytes.** -/
def getByRange (s : Storage) (index : Nat) : Outcome SlotValue := do
  s.checkSlot index
  let (start, stop) ← s.byteRange index
  let slot ← slice s.bytes start stop
  SlotValue.decode s.type.slotKind slot

/-- **The storage with a slot written, by the range of its bytes.** -/
def setByRange (s : Storage) (index : Nat) (v : SlotValue) : Outcome Storage := do
  s.checkSlot index
  if v.kind ≠ s.type.slotKind then
    refuse (.typeMismatch s.type.slotKind.elementType v.elementType)
  else
    let (start, stop) ← s.byteRange index
    let slot ← slice s.bytes start stop
    let slot ← v.writeTo slot
    return { s with bytes := s.bytes.take start ++ slot ++ s.bytes.drop stop }

/-- **The bytes of a slot that is there** are in range. -/
theorem byteRange_of_lt {i : Nat} (hs : s.bytes.length < Word.addressLimit) (hi : i < s.len) :
    s.byteRange i = .ok (i * s.type.slotBytes, (i + 1) * s.type.slotBytes)
      ∧ slice s.bytes (i * s.type.slotBytes) ((i + 1) * s.type.slotBytes)
        = .ok ((s.bytes.drop (i * s.type.slotBytes)).take s.type.slotBytes) := by
  have hstop := succ_mul_slotBytes_le hi
  have hbound : s.bytes.length < 0x8000000000000000 := hs
  have hstart : i * s.type.slotBytes ≤ (i + 1) * s.type.slotBytes :=
    Nat.mul_le_mul_right _ (Nat.le_succ i)
  have hnext : i + 1 ≤ (i + 1) * s.type.slotBytes :=
    Nat.le_mul_of_pos_right _ (SlotKind.bytes_pos _)
  have hword : ∀ n ≤ s.bytes.length, Word.unsigned n = .ok n := fun n hn =>
    Word.unsigned_eq_ok.mpr ⟨by unfold Word.IsUnsigned; omega, rfl⟩
  constructor
  · rw [byteRange, hword _ (hstart.trans hstop), hword _ (hnext.trans hstop)]
    show (Word.unsigned ((i + 1) * s.type.slotBytes) >>= _) = _
    rw [hword _ hstop]
    rfl
  · rw [slice, if_pos ⟨hstart, hstop⟩, Nat.succ_mul, Nat.add_sub_cancel_left]

/-- A value written over as many bytes as it takes leaves none of them. -/
theorem writeTo_of_length {v : SlotValue} {bytes : List UInt8} (h : bytes.length = v.kind.bytes) :
    v.writeTo bytes = .ok v.encode := by
  rw [SlotValue.writeTo, if_neg (by omega), List.drop_of_length_le (Nat.le_of_eq h),
    List.append_nil]

/-- **Reading a slot by its range of bytes** never fails for the range. -/
theorem getByRange_eq (hs : s.bytes.length < Word.addressLimit) (i : Nat) :
    s.getByRange i = s.get i := by
  rcases Nat.lt_or_ge i s.len with hi | hi
  · obtain ⟨hrange, hslice⟩ := byteRange_of_lt hs hi
    rw [getByRange, get, checkSlot_of_lt hi, hrange]
    show (slice _ _ _ >>= _) = _
    rw [hslice]
    rfl
  · rw [getByRange, get, checkSlot, if_pos hi]
    rfl

/-- **Writing a slot by its range of bytes** never fails for the range. -/
theorem setByRange_eq (hs : s.bytes.length < Word.addressLimit) (i : Nat) (v : SlotValue) :
    s.setByRange i v = s.set i v := by
  rcases Nat.lt_or_ge i s.len with hi | hi
  · obtain ⟨hrange, hslice⟩ := byteRange_of_lt hs hi
    rw [setByRange, set, checkSlot_of_lt hi]
    refine ite_congr rfl (fun _ => rfl) fun hv => ?_
    have hslot : ((s.bytes.drop (i * s.type.slotBytes)).take s.type.slotBytes).length
        = v.kind.bytes := by
      have hstop := succ_mul_slotBytes_le hi
      rw [Nat.succ_mul] at hstop
      rw [List.length_take, List.length_drop, not_not.mp hv]
      exact Nat.min_eq_left (by omega)
    rw [hrange]
    show (slice _ _ _ >>= _) = _
    rw [hslice]
    show (v.writeTo _ >>= _) = _
    rw [writeTo_of_length hslot]
    rfl
  · rw [setByRange, set, checkSlot, if_pos hi]
    rfl

/-! ## What any calls leave -/

/-- **What the slots of a storage of zeros hold** after what a log tells: the value last written with
success, or zero. -/
def contents (type : ElementType) (log : List Event) : Nat → SlotValue :=
  lastStored type.slotKind (fun _ => .zero type.slotKind) log

/-- **A storage is a fixed number of slots.** Whatever has been called on a storage of zeros, its
type and the number of its slots are as they were, and every slot holds what was last written to it
with success, or a zero, which is of the kind of the slots. The next call is answered as expected of
such slots, without a trap; it leaves the storage as it is if it fails, and never touches another
slot than its own. Every check of the bounds of bytes is passed on the way. -/
theorem slots_of_run (h : zeros type size = .ok s₀) (calls : List Call) {log : List Event}
    (hrun : s₀.run calls = (log, s)) :
    s.type = type ∧ s.len = size
      ∧ (∀ i < size, s.get i = .ok (contents type log i)
          ∧ (contents type log i).kind = type.slotKind)
      ∧ (∀ (call : Call) (answer : Outcome Answer) (s' : Storage),
          s.perform call = (answer, s') →
            answer = call.expected type size (contents type log)
              ∧ (∀ t, answer ≠ trap t)
              ∧ (answer.isOk = false → s' = s)
              ∧ ∀ i < size, i ≠ call.index → s'.get i = s.get i)
      ∧ (∀ i, s.getByRange i = s.get i) ∧ ∀ i v, s.setByRange i v = s.set i v := by
  have hholds : s.Holds type size (contents type log) := by
    have hafter := (holds_of_zeros h).run calls
    rw [hrun] at hafter
    exact hafter
  refine ⟨hholds.type_eq, hholds.len_eq, fun i hi => ⟨hholds.get_eq i hi, hholds.kind_eq hi⟩, ?_,
    getByRange_eq hholds.addressable, setByRange_eq hholds.addressable⟩
  intro call answer s' hperform
  obtain ⟨hanswer, hafter⟩ := hholds.perform call
  rw [hperform] at hanswer hafter
  refine ⟨hanswer, fun t ht => Call.expected_ne_trap (hanswer.symm.trans ht), fun hfailed => ?_,
    fun i hi hother => ?_⟩
  · exact perform_of_error hperform hfailed
  · rw [hafter.get_eq i hi, hholds.get_eq i hi, lastStored_of_ne _ _ hother.symm]

/-- Three slots of complex numbers: a signalling bit pattern is kept as it is, a value of another
kind and an index beyond the slots are refused, and the last slot is still a zero. -/
theorem slots_of_run_complex : ∃ (s₀ s : Storage) (log : List Event),
    zeros .complex64 3 = .ok s₀
      ∧ s₀.run [.set 1 (.float .float32 0x7F800001), .set 1 (.bool true), .writeDouble 0 .one,
        .get 7, .checkSlot 2] = (log, s)
      ∧ s.len = 3
      ∧ s.get 0 = .ok (.float .float32 0x3F800000)
      ∧ s.get 1 = .ok (.float .float32 0x7F800001)
      ∧ s.get 2 = .ok (.float .float32 0)
      ∧ s.perform (.set 2 (.bool true)) = (refuse (.typeMismatch .float32 .bool), s)
      ∧ s.perform (.readDouble 3) = (refuse (.outOfBounds 3 3), s) := by
  have h : zeros .complex64 3 = .ok ⟨.complex64, List.replicate 12 0⟩ := by decide +kernel
  obtain ⟨-, hlen, hget, hcalls, -⟩ := slots_of_run h [.set 1 (.float .float32 0x7F800001),
    .set 1 (.bool true), .writeDouble 0 .one, .get 7, .checkSlot 2] rfl
  obtain ⟨hmismatch, -, hkept, -⟩ := hcalls (.set 2 (.bool true)) _ _ rfl
  obtain ⟨hbeyond, -, hkept', -⟩ := hcalls (.readDouble 3) _ _ rfl
  exact ⟨_, _, _, h, rfl, hlen, (hget 0 (by decide)).1, (hget 1 (by decide)).1,
    (hget 2 (by decide)).1, Prod.ext hmismatch (hkept (by decide +kernel)),
    Prod.ext hbeyond (hkept' (by decide +kernel))⟩

end Storage

end StridedArray
