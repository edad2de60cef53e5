import StridedArray.Proofs.Outcome
import StridedArray.Storage

/-!
# Reading back what was written

A slot that was written holds the value written, and every other slot what
it held before (`Storage.get_replace`). Nothing can go wrong with a slot
that is there: it is read (`Storage.get_of_lt`), and it takes any value of
its kind (`Storage.set_of_lt`).
-/

namespace StridedArray

namespace SlotValue

/-- The bytes of a float are those of its width. -/
theorem eight_mul_width_float (k : FloatKind) : 8 * (SlotKind.float k).bytes = k.width := by
  cases k <;> rfl

/-- The bytes of an integer are those of its width. -/
theorem eight_mul_width_int (k : IntKind) : 8 * (SlotKind.int k).bytes = k.width := by
  cases k <;> rfl

/-- A bit pattern cut off at its width and taken as a pattern again is itself. -/
theorem ofNat_toNat_mod {width : Nat} (bits : BitVec width) :
    BitVec.ofNat width (bits.toNat % 1 <<< width) = bits := by
  rw [Nat.one_shiftLeft, Nat.mod_eq_of_lt bits.isLt]
  exact BitVec.eq_of_toNat_eq (by rw [BitVec.toNat_ofNat, Nat.mod_eq_of_lt bits.isLt])

/-- Enough bytes are read. -/
theorem decode_of_le {k : SlotKind} {bytes : List UInt8} (h : k.bytes ≤ bytes.length) :
    decode k bytes = .ok (ofPattern k (LittleEndian.decode (bytes.take k.bytes))) :=
  if_neg (Nat.not_lt_of_le h)

/-- **Reading back the bytes of a value.** -/
theorem decode_encode (v : SlotValue) : decode v.kind v.encode = .ok v := by
  have hlength : v.encode.length = v.kind.bytes := length_encode v
  rw [decode_of_le (by omega), List.take_of_length_le (by omega), encode,
    LittleEndian.decode_encode]
  refine congrArg Except.ok ?_
  cases v with
  | bool b => cases b <;> rfl
  | float k bits =>
    show float k (BitVec.ofNat k.width (bits.toNat % 1 <<< (8 * (SlotKind.float k).bytes))) = _
    rw [eight_mul_width_float, ofNat_toNat_mod]
  | int k bits =>
    show int k (BitVec.ofNat k.width (bits.toNat % 1 <<< (8 * (SlotKind.int k).bytes))) = _
    rw [eight_mul_width_int, ofNat_toNat_mod]

end SlotValue

/-- The entries of one slot of a list, with another slot replaced or this one. -/
theorem slot_replaced {α : Type} {xs new : List α} {width i j : Nat} (hnew : new.length = width)
    (hi : (i + 1) * width ≤ xs.length) (hj : (j + 1) * width ≤ xs.length) :
    ((xs.take (i * width) ++ new ++ xs.drop ((i + 1) * width)).drop (j * width)).take width
      = if j = i then new else (xs.drop (j * width)).take width := by
  have hsucc : ∀ m, (m + 1) * width = m * width + width := fun m => Nat.succ_mul m width
  rw [hsucc] at hi hj ⊢
  refine List.ext_getElem? fun m => ?_
  by_cases hm : m < width
  · rw [List.getElem?_take_of_lt hm, List.getElem?_drop, List.append_assoc]
    rcases Nat.lt_trichotomy j i with hlt | rfl | hgt
    · have hle : (j + 1) * width ≤ i * width := Nat.mul_le_mul_right width hlt
      rw [hsucc] at hle
      rw [if_neg (by omega), List.getElem?_take_of_lt hm, List.getElem?_drop,
        List.getElem?_append_left (by rw [List.length_take]; omega),
        List.getElem?_take_of_lt (by omega)]
    · have hlength : (xs.take (j * width)).length = j * width := by
        rw [List.length_take]
        omega
      rw [if_pos rfl, List.getElem?_append_right (by omega), hlength, Nat.add_sub_cancel_left,
        List.getElem?_append_left (by omega)]
    · have hle : (i + 1) * width ≤ j * width := Nat.mul_le_mul_right width hgt
      rw [hsucc] at hle
      have hlength : (xs.take (i * width)).length = i * width := by
        rw [List.length_take]
        omega
      rw [if_neg (by omega), List.getElem?_take_of_lt hm, List.getElem?_drop,
        List.getElem?_append_right (by omega), List.getElem?_append_right (by omega),
        List.getElem?_drop, hlength, hnew]
      congr 1
      omega
  · have hnone : ∀ ys : List α, (ys.take width)[m]? = none := fun ys =>
      List.getElem?_eq_none (by rw [List.length_take]; omega)
    rw [hnone]
    split
    · exact (List.getElem?_eq_none (by omega)).symm
    · exact (hnone _).symm

namespace Storage

variable {s : Storage} {i j : Nat} {v : SlotValue}

/-- A slot that is there lies within the bytes. -/
theorem succ_mul_slotBytes_le (h : i < s.len) :
    (i + 1) * s.type.slotBytes ≤ s.bytes.length :=
  Nat.le_trans (Nat.mul_le_mul_right _ h) (Nat.div_mul_le_self _ _)

theorem checkSlot_of_lt (h : i < s.len) : s.checkSlot i = .ok () :=
  if_neg (Nat.not_le_of_lt h)

/-- An index without a slot is refused. -/
theorem get_of_ge (h : s.len ≤ i) : s.get i = refuse (.outOfBounds i s.len) := by
  rw [get, checkSlot, if_pos h]
  rfl

/-- **A slot that is there is read**, and its value is of the kind of the slots. -/
theorem get_of_lt (h : i < s.len) : ∃ v, s.get i = .ok v ∧ v.kind = s.type.slotKind := by
  have hbytes := succ_mul_slotBytes_le h
  rw [Nat.succ_mul] at hbytes
  have henough : s.type.slotKind.bytes
      ≤ ((s.bytes.drop (i * s.type.slotBytes)).take s.type.slotBytes).length := by
    rw [List.length_take, List.length_drop]
    show s.type.slotBytes ≤ _
    omega
  rw [get, checkSlot_of_lt h]
  exact ⟨_, SlotValue.decode_of_le henough, SlotValue.kind_ofPattern _ _⟩

/-- **A slot that is there takes any value of its kind.** -/
theorem set_of_lt (h : i < s.len) (hv : v.kind = s.type.slotKind) :
    s.set i v = .ok (s.replace i v.encode) := by
  rw [set, checkSlot_of_lt h]
  exact if_neg (by simp [hv])

/-- What a write that is not refused does. -/
theorem set_eq_ok {s' : Storage} :
    s.set i v = .ok s' ↔ i < s.len ∧ v.kind = s.type.slotKind ∧ s' = s.replace i v.encode := by
  constructor
  · intro h
    obtain ⟨u, hcheck, hset⟩ := Outcome.bind_eq_ok.mp h
    have hi : i < s.len := by
      unfold checkSlot at hcheck
      split at hcheck
      · exact (refuse_ne_ok _ _ hcheck).elim
      · omega
    by_cases hv : v.kind = s.type.slotKind
    · rw [if_neg (by simp [hv])] at hset
      exact ⟨hi, hv, (Except.ok.inj hset).symm⟩
    · rw [if_pos hv] at hset
      exact (refuse_ne_ok _ _ hset).elim
  · rintro ⟨hi, hv, rfl⟩
    exact set_of_lt hi hv

@[simp] theorem type_replace (s : Storage) (i : Nat) (new : List UInt8) :
    (s.replace i new).type = s.type := rfl

/-- A slot replaced leaves the number of bytes as it is. -/
theorem length_replace (h : i < s.len) (hv : v.kind = s.type.slotKind) :
    (s.replace i v.encode).bytes.length = s.bytes.length := by
  have hbytes := succ_mul_slotBytes_le h
  have hnew : v.encode.length = s.type.slotBytes := by
    rw [SlotValue.length_encode, hv]
    rfl
  show ((s.bytes.take (i * s.type.slotBytes) ++ v.encode)
    ++ s.bytes.drop ((i + 1) * s.type.slotBytes)).length = s.bytes.length
  rw [List.length_append, List.length_append, List.length_take, List.length_drop, hnew]
  rw [Nat.succ_mul] at hbytes ⊢
  omega

/-- A slot replaced leaves the number of slots as it is. -/
theorem len_replace (h : i < s.len) (hv : v.kind = s.type.slotKind) :
    (s.replace i v.encode).len = s.len := by
  rw [len, length_replace h hv]
  rfl

/-- **What a slot holds after a write**: the value, if it is the slot written. -/
theorem get_replace (hi : i < s.len) (hv : v.kind = s.type.slotKind) (hj : j < s.len) :
    (s.replace i v.encode).get j = if j = i then .ok v else s.get j := by
  have hnew : v.encode.length = s.type.slotBytes := by
    rw [SlotValue.length_encode, hv]
    rfl
  have hslot := slot_replaced hnew (succ_mul_slotBytes_le hi) (succ_mul_slotBytes_le hj)
  rw [get, checkSlot_of_lt (by rwa [len_replace hi hv]), get, checkSlot_of_lt hj]
  show SlotValue.decode s.type.slotKind _ = if j = i then _ else SlotValue.decode _ _
  rw [show (s.replace i v.encode).bytes = s.bytes.take (i * s.type.slotBytes) ++ v.encode
    ++ s.bytes.drop ((i + 1) * s.type.slotBytes) from rfl, type_replace, hslot]
  split
  · rw [← hv, SlotValue.decode_encode]
  · rfl

end Storage

end StridedArray
