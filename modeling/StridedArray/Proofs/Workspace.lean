import StridedArray.Proofs.Storage
import StridedArray.Workspace

/-!
# Writing to a workspace

What a write changes is one slot of one storage, and nothing else
(`Workspace.agreesOff_writeSlot`). `Workspace.AgreesOff` says of two
workspaces that they differ at most in the slots of a set, and
`Workspace.Extends` that the storages of the one are in use in the other,
with the same types and sizes: what later operations leave alone whatever
they write.

`Action.Achieves` is the judgement by which actions are proved: from a
workspace the action ends with a postcondition, unless it traps. It is
never refused.
-/

namespace StridedArray

namespace Workspace

/-! ## Slots -/

/-- **What a slot of a storage holds**, locked or not. -/
def content (w : Workspace) (id index : Nat) : Outcome SlotValue :=
  (w.cell id).storage.get index

/-- A storage with a slot is in use. -/
theorem lt_length_of_lt_slotCount {w : Workspace} {id index : Nat}
    (h : index < w.slotCount id) : id < w.cells.length := by
  by_contra hid
  have hcell : w.cell id = default := by
    rw [cell, List.getD_eq_getElem?_getD, List.getElem?_eq_none (Nat.le_of_not_lt hid)]
    rfl
  rw [slotCount, hcell] at h
  exact absurd h (Nat.not_lt_zero _)

theorem unlocked_eq_ok {w : Workspace} {id : Nat} {s : Storage} :
    w.unlocked id = .ok s ↔ (w.cell id).locked = false ∧ s = (w.cell id).storage := by
  unfold unlocked
  by_cases h : (w.cell id).locked = true
  · rw [if_pos h]
    exact ⟨fun hok => (refuse_ne_ok _ _ hok).elim, fun hok => absurd h (by simp [hok.1])⟩
  · rw [if_neg h]
    exact ⟨fun hok => ⟨by simpa using h, (Except.ok.inj hok).symm⟩, fun hok => by rw [hok.2]⟩

/-- A storage that is read is not locked. -/
theorem unlocked_of_readDouble {w : Workspace} {id index : Nat} {value : Double}
    (h : w.readDouble id index = .ok value) : (w.cell id).locked = false := by
  obtain ⟨s, hs, -⟩ := Outcome.bind_eq_ok.mp h
  exact (unlocked_eq_ok.mp hs).1

/-- A storage that is written is not locked. -/
theorem unlocked_of_writeDouble {w w' : Workspace} {id index : Nat} {value : Double}
    (h : w.writeDouble id index value = .ok w') : (w.cell id).locked = false := by
  obtain ⟨s, hs, -⟩ := Outcome.bind_eq_ok.mp h
  exact (unlocked_eq_ok.mp hs).1

/-- A slot of an unlocked storage is read as it is. -/
theorem readSlot_of_unlocked {w : Workspace} {id : Nat} (h : (w.cell id).locked = false)
    (index : Nat) : w.readSlot id index = w.content id index := by
  rw [readSlot, unlocked_eq_ok.mpr ⟨h, rfl⟩]
  rfl

/-- **A slot that is there is read as a double**, if its storage is unlocked. -/
theorem readDouble_of_content {w : Workspace} {id index : Nat} {v : SlotValue}
    (h : (w.cell id).locked = false) (hv : w.content id index = .ok v) :
    w.readDouble id index = .ok v.toDouble := by
  have hv' : (w.cell id).storage.get index = .ok v := hv
  rw [readDouble, unlocked_eq_ok.mpr ⟨h, rfl⟩]
  show (w.cell id).storage.readDouble index = _
  rw [Storage.readDouble, hv']
  rfl

/-- Reading a double is reading the value of the slot, unless the storage is locked. -/
theorem readDouble_eq (w : Workspace) (id index : Nat) :
    w.readDouble id index = if (w.cell id).locked then refuse .locked else do
      let v ← w.content id index
      return v.toDouble := by
  unfold readDouble unlocked
  by_cases h : (w.cell id).locked = true
  · rw [if_pos h, if_pos h]
    rfl
  · rw [if_neg h, if_neg h]
    rfl

/-- A locked storage is not read, whichever the index. -/
theorem readDouble_of_locked {w : Workspace} {id : Nat} (h : (w.cell id).locked = true)
    (index : Nat) : w.readDouble id index = refuse .locked := by
  rw [readDouble, unlocked, if_pos h]
  rfl

/-- A slot that is there holds a value of the kind of the storage. -/
theorem content_of_lt {w : Workspace} {id index : Nat} (h : index < w.slotCount id) :
    ∃ v, w.content id index = .ok v ∧ v.kind = (w.elementType id).slotKind :=
  Storage.get_of_lt h

/-- **A slot that is there is read, unless its storage is locked.** -/
theorem readDouble_refusedOnly_locked {w : Workspace} {id index : Nat}
    (h : index < w.slotCount id) : (w.readDouble id index).RefusedOnly (· = .locked) := by
  by_cases hlocked : (w.cell id).locked = true
  · rw [readDouble_of_locked hlocked]
    exact Outcome.refusedOnly_refuse.mpr rfl
  · obtain ⟨v, hv, -⟩ := content_of_lt h
    rw [readDouble_of_content (by simpa using hlocked) hv]
    exact Outcome.refusedOnly_ok _

/-! ## Workspaces that differ in some slots -/

/-- **The workspaces differ at most in some slots** of the storages in use. -/
structure AgreesOff (w w' : Workspace) (slots : Nat → Nat → Prop) : Prop where
  /-- The same storages are in use. -/
  length_eq : w'.cells.length = w.cells.length
  /-- New arrays get the same type. -/
  defaultType_eq : w'.defaultType = w.defaultType
  /-- Every storage has the same type. -/
  type_eq : ∀ id, w'.elementType id = w.elementType id
  /-- Every storage has the same size. -/
  bytes_eq : ∀ id, (w'.cell id).storage.bytes.length = (w.cell id).storage.bytes.length
  /-- The same storages are locked. -/
  locked_eq : ∀ id, (w'.cell id).locked = (w.cell id).locked
  /-- Every other slot holds what it held. -/
  content_eq : ∀ id index, ¬slots id index → w'.content id index = w.content id index

namespace AgreesOff

variable {w w' w'' : Workspace} {S T : Nat → Nat → Prop}

theorem refl (w : Workspace) (S : Nat → Nat → Prop) : w.AgreesOff w S :=
  ⟨rfl, rfl, fun _ => rfl, fun _ => rfl, fun _ => rfl, fun _ _ _ => rfl⟩

theorem trans (h : w.AgreesOff w' S) (h' : w'.AgreesOff w'' S) : w.AgreesOff w'' S where
  length_eq := h'.length_eq.trans h.length_eq
  defaultType_eq := h'.defaultType_eq.trans h.defaultType_eq
  type_eq id := (h'.type_eq id).trans (h.type_eq id)
  bytes_eq id := (h'.bytes_eq id).trans (h.bytes_eq id)
  locked_eq id := (h'.locked_eq id).trans (h.locked_eq id)
  content_eq id index hS := (h'.content_eq id index hS).trans (h.content_eq id index hS)

theorem mono (h : w.AgreesOff w' S) (hST : ∀ id index, S id index → T id index) :
    w.AgreesOff w' T where
  length_eq := h.length_eq
  defaultType_eq := h.defaultType_eq
  type_eq := h.type_eq
  bytes_eq := h.bytes_eq
  locked_eq := h.locked_eq
  content_eq id index hT := h.content_eq id index fun hS => hT (hST id index hS)

/-- Every storage has as many slots. -/
theorem slotCount_eq (h : w.AgreesOff w' S) (id : Nat) : w'.slotCount id = w.slotCount id := by
  have htype : (w'.cell id).storage.type = (w.cell id).storage.type := h.type_eq id
  unfold slotCount Storage.len
  rw [h.bytes_eq, htype]

/-- Every other slot is read alike. -/
theorem readDouble_eq (h : w.AgreesOff w' S) {id index : Nat} (hS : ¬S id index) :
    w'.readDouble id index = w.readDouble id index := by
  rw [Workspace.readDouble_eq, Workspace.readDouble_eq, h.locked_eq, h.content_eq id index hS]

end AgreesOff

/-- **The storages of the first workspace are in use in the second**, with the same types and
sizes. -/
structure Extends (w w' : Workspace) : Prop where
  /-- No storage has gone. -/
  length_le : w.cells.length ≤ w'.cells.length
  /-- Every storage has the same type. -/
  type_eq : ∀ id < w.cells.length, w'.elementType id = w.elementType id
  /-- Every storage has the same size. -/
  bytes_eq : ∀ id < w.cells.length,
    (w'.cell id).storage.bytes.length = (w.cell id).storage.bytes.length

namespace Extends

variable {w w' w'' : Workspace}

theorem refl (w : Workspace) : w.Extends w :=
  ⟨Nat.le_refl _, fun _ _ => rfl, fun _ _ => rfl⟩

theorem trans (h : w.Extends w') (h' : w'.Extends w'') : w.Extends w'' where
  length_le := Nat.le_trans h.length_le h'.length_le
  type_eq id hid := (h'.type_eq id (Nat.lt_of_lt_of_le hid h.length_le)).trans (h.type_eq id hid)
  bytes_eq id hid :=
    (h'.bytes_eq id (Nat.lt_of_lt_of_le hid h.length_le)).trans (h.bytes_eq id hid)

/-- Every storage has as many slots. -/
theorem slotCount_eq (h : w.Extends w') {id : Nat} (hid : id < w.cells.length) :
    w'.slotCount id = w.slotCount id := by
  have htype : (w'.cell id).storage.type = (w.cell id).storage.type := h.type_eq id hid
  unfold slotCount Storage.len
  rw [h.bytes_eq id hid, htype]

end Extends

/-- **The storages of the first workspace are as they were**, slot for slot. -/
structure Preserves (w w' : Workspace) : Prop where
  /-- Every storage has the same type. -/
  type_eq : ∀ id < w.cells.length, w'.elementType id = w.elementType id
  /-- The same storages are locked. -/
  locked_eq : ∀ id < w.cells.length, (w'.cell id).locked = (w.cell id).locked
  /-- Every slot holds what it held. -/
  content_eq : ∀ id < w.cells.length, ∀ index, w'.content id index = w.content id index

theorem Preserves.of_cell_eq {w w' : Workspace}
    (h : ∀ id < w.cells.length, w'.cell id = w.cell id) : w.Preserves w' where
  type_eq id hid := by rw [elementType, elementType, h id hid]
  locked_eq id hid := by rw [h id hid]
  content_eq id hid index := by rw [content, content, h id hid]

/-- Storages from before stay as they were when only later ones are written to. -/
theorem Preserves.agreesOff {w w₁ w' : Workspace} {S : Nat → Nat → Prop} (h : w.Preserves w₁)
    (hw : w₁.AgreesOff w' S) (hS : ∀ id index, S id index → w.cells.length ≤ id) :
    w.Preserves w' where
  type_eq id hid := (hw.type_eq id).trans (h.type_eq id hid)
  locked_eq id hid := (hw.locked_eq id).trans (h.locked_eq id hid)
  content_eq id hid index :=
    (hw.content_eq id index fun hslot => Nat.not_lt_of_le (hS id index hslot) hid).trans
      (h.content_eq id hid index)

theorem AgreesOff.extends {w w' : Workspace} {S : Nat → Nat → Prop} (h : w.AgreesOff w' S) :
    w.Extends w' where
  length_le := Nat.le_of_eq h.length_eq.symm
  type_eq id _ := h.type_eq id
  bytes_eq id _ := h.bytes_eq id

/-! ## Changes -/

/-- The storages after the slots of one were replaced. -/
theorem cell_put (w : Workspace) (id : Nat) (s : Storage) {j : Nat} (hj : j < w.cells.length) :
    (w.put id s).cell j = if j = id then { w.cell j with storage := s } else w.cell j := by
  unfold cell put
  rw [List.getD_eq_getElem?_getD, List.getD_eq_getElem?_getD, List.getElem?_modify,
    List.getElem?_eq_getElem hj]
  show (if id = j then _ else _) = _
  by_cases h : j = id
  · rw [if_pos h, if_pos h.symm]
    rfl
  · rw [if_neg h, if_neg (Ne.symm h)]
    rfl

/-- A number not in use stands for the same storage after any change. -/
theorem cell_of_ge {w : Workspace} {j : Nat} (hj : w.cells.length ≤ j) : w.cell j = default := by
  rw [cell, List.getD_eq_getElem?_getD, List.getElem?_eq_none hj]
  rfl

/-- The storages after one more was taken into use. -/
theorem cell_add (w : Workspace) (s : Storage) (j : Nat) :
    (w.add s).cell j
      = if j = w.cells.length then { storage := s, locked := false } else w.cell j := by
  unfold cell add
  rw [List.getD_eq_getElem?_getD, List.getD_eq_getElem?_getD]
  by_cases h : j = w.cells.length
  · rw [if_pos h, h, List.getElem?_concat_length]
    rfl
  · rw [if_neg h]
    rcases Nat.lt_or_gt_of_ne h with hlt | hgt
    · rw [List.getElem?_append_left hlt]
    · rw [List.getElem?_eq_none (by rw [List.length_append, List.length_singleton]; omega),
        List.getElem?_eq_none (Nat.le_of_lt hgt)]

theorem extends_add (w : Workspace) (s : Storage) : w.Extends (w.add s) := by
  have hcell : ∀ id < w.cells.length, (w.add s).cell id = w.cell id := fun id hid => by
    rw [cell_add, if_neg (Nat.ne_of_lt hid)]
  refine ⟨?_, fun id hid => ?_, fun id hid => ?_⟩
  · show w.cells.length ≤ (w.cells ++ [_]).length
    rw [List.length_append]
    omega
  · rw [elementType, elementType, hcell id hid]
  · rw [hcell id hid]

/-- **What a write to a slot does**, if it is not refused: that slot holds the value, and nothing
else has changed. -/
theorem agreesOff_writeSlot {w w' : Workspace} {id index : Nat} {v : SlotValue}
    (h : w.writeSlot id index v = .ok w') :
    w.AgreesOff w' (fun j k => j = id ∧ k = index) ∧ w'.content id index = .ok v := by
  obtain ⟨s, hs, h⟩ := Outcome.bind_eq_ok.mp h
  obtain ⟨-, rfl⟩ := unlocked_eq_ok.mp hs
  obtain ⟨s', hset, h⟩ := Outcome.bind_eq_ok.mp h
  obtain ⟨hindex, hkind, rfl⟩ := Storage.set_eq_ok.mp hset
  obtain rfl := Except.ok.inj h
  have hid := lt_length_of_lt_slotCount hindex
  have hlength : (w.put id ((w.cell id).storage.replace index v.encode)).cells.length
      = w.cells.length := List.length_modify ..
  -- numbers not in use stand for the same storage before and after
  have hcell : ∀ j, (w.put id ((w.cell id).storage.replace index v.encode)).cell j
      = if j = id
          then { w.cell id with storage := (w.cell id).storage.replace index v.encode }
          else w.cell j := by
    intro j
    rcases Nat.lt_or_ge j w.cells.length with hj | hj
    · rw [cell_put _ _ _ hj]
      by_cases hjid : j = id
      · rw [if_pos hjid, if_pos hjid, hjid]
      · rw [if_neg hjid, if_neg hjid]
    · rw [if_neg (by omega), cell_of_ge hj, cell_of_ge (by rw [hlength]; exact hj)]
  refine ⟨⟨hlength, rfl, fun j => ?_, fun j => ?_, fun j => ?_, fun j k hjk => ?_⟩, ?_⟩
  · rw [elementType, elementType, hcell]
    split
    · next hj => rw [hj]; rfl
    · rfl
  · rw [hcell]
    split
    · next hj => rw [hj]; exact Storage.length_replace hindex hkind
    · rfl
  · rw [hcell]
    split
    · next hj => rw [hj]
    · rfl
  · rw [content, content, hcell]
    split
    · next hj =>
      subst hj
      rcases Nat.lt_or_ge k (w.cell j).storage.len with hk | hk
      · rw [Storage.get_replace hindex hkind hk, if_neg fun heq => hjk ⟨rfl, heq⟩]
      · rw [Storage.get_of_ge hk, Storage.get_of_ge (by rwa [Storage.len_replace hindex hkind]),
          Storage.len_replace hindex hkind]
    · rfl
  · rw [content, hcell, if_pos rfl, Storage.get_replace hindex hkind hindex, if_pos rfl]

/-- **A slot that is there takes any value of its kind**, if its storage is unlocked. -/
theorem exists_writeSlot {w : Workspace} {id index : Nat} {v : SlotValue}
    (hlocked : (w.cell id).locked = false) (hindex : index < w.slotCount id)
    (hkind : v.kind = (w.elementType id).slotKind) : ∃ w', w.writeSlot id index v = .ok w' := by
  refine ⟨w.put id ((w.cell id).storage.replace index v.encode), ?_⟩
  exact Outcome.bind_eq_ok.mpr ⟨_, unlocked_eq_ok.mpr ⟨hlocked, rfl⟩,
    Outcome.bind_eq_ok.mpr ⟨_, Storage.set_of_lt hindex hkind, rfl⟩⟩

/-- Writing a double is writing the value it is converted to. -/
theorem writeDouble_eq_writeSlot (w : Workspace) (id index : Nat) (x : Double) :
    w.writeDouble id index x
      = w.writeSlot id index (.ofDouble (w.elementType id).slotKind x) := by
  unfold writeDouble writeSlot
  cases h : w.unlocked id with
  | error e => rfl
  | ok s =>
    obtain ⟨-, rfl⟩ := unlocked_eq_ok.mp h
    rfl

/-- **A slot that is there is written, unless its storage is locked.** -/
theorem writeDouble_refusedOnly_locked {w : Workspace} {id index : Nat} {x : Double}
    (h : index < w.slotCount id) : (w.writeDouble id index x).RefusedOnly (· = .locked) := by
  by_cases hlocked : (w.cell id).locked = true
  · rw [writeDouble, unlocked, if_pos hlocked]
    exact Outcome.refusedOnly_refuse.mpr rfl
  · obtain ⟨w', hw'⟩ := exists_writeSlot (Bool.eq_false_iff.mpr hlocked) h
      (SlotValue.kind_ofDouble _ x)
    rw [writeDouble_eq_writeSlot, hw']
    exact Outcome.refusedOnly_ok _

end Workspace

namespace Action

variable {α β : Type} {w w' : Workspace}

/-! ## Actions with a result -/

/-- What an action leads to from a workspace can be computed and compared. -/
instance decidableEqResult [DecidableEq α] : DecidableEq (EStateM.Result Fault Workspace α)
  | .ok a w, .ok b w' => decidable_of_iff (a = b ∧ w = w') (by rw [EStateM.Result.ok.injEq])
  | .error e w, .error f w' =>
    decidable_of_iff (e = f ∧ w = w') (by rw [EStateM.Result.error.injEq])
  | .ok .., .error .. => isFalse nofun
  | .error .., .ok .. => isFalse nofun

/-- **Two actions in a row have a result** if the first has one and the second, given that, has
one. -/
theorem bind_eq_ok {x : Action α} {f : α → Action β} {b : β} :
    (x >>= f) w = .ok b w' ↔ ∃ a w₁, x w = .ok a w₁ ∧ f a w₁ = .ok b w' := by
  show EStateM.bind x f w = .ok b w' ↔ _
  unfold EStateM.bind
  cases hx : x w with
  | ok a w₁ =>
    exact ⟨fun h => ⟨a, w₁, rfl, h⟩, fun ⟨_, _, hok, h⟩ => by cases hok; exact h⟩
  | error e w₁ => exact ⟨nofun, nofun⟩

theorem ofOutcome_eq_ok {x : Outcome α} {a : α} :
    ofOutcome x w = .ok a w' ↔ x = .ok a ∧ w' = w := by
  cases x with
  | ok b =>
    exact ⟨fun h => by cases h; exact ⟨rfl, rfl⟩, fun ⟨h, hw⟩ => by cases h; rw [hw]; rfl⟩
  | error e => exact ⟨nofun, nofun⟩

/-- A result in front of an action is handed to it. -/
theorem lift_ok_bind (a : α) (f : α → Action β) (w : Workspace) :
    ((liftM (.ok a : Outcome α) : Action α) >>= f) w = f a w := rfl

/-- **An operation that does not look at the workspace**, in front of an action. -/
theorem lift_bind_eq_ok {x : Outcome α} {f : α → Action β} {b : β} :
    ((liftM x : Action α) >>= f) w = .ok b w' ↔ ∃ a, x = .ok a ∧ f a w = .ok b w' := by
  rw [bind_eq_ok]
  constructor
  · rintro ⟨a, w₁, hlift, hf⟩
    obtain ⟨hx, rfl⟩ := ofOutcome_eq_ok.mp hlift
    exact ⟨a, hx, hf⟩
  · rintro ⟨a, hx, hf⟩
    exact ⟨a, w, ofOutcome_eq_ok.mpr ⟨hx, rfl⟩, hf⟩

theorem changing_eq_ok {f : Workspace → Outcome Workspace} {u : Unit} :
    changing f w = .ok u w' ↔ f w = .ok w' := by
  unfold changing
  cases f w with
  | ok w₁ => exact ⟨fun h => by cases h; rfl, fun h => by cases h; rfl⟩
  | error e => exact ⟨nofun, nofun⟩

/-- A change that fails leaves the workspace as it is. -/
theorem changing_eq_error {f : Workspace → Outcome Workspace} {e : Fault}
    (h : changing f w = .error e w') : f w = .error e ∧ w' = w := by
  unfold changing at h
  cases hf : f w with
  | ok w₁ =>
    rw [hf] at h
    exact nomatch h
  | error e =>
    rw [hf] at h
    obtain ⟨rfl, rfl⟩ := EStateM.Result.error.inj h
    exact ⟨rfl, rfl⟩

/-! ## Actions that keep the storages -/

/-- **Whenever the action has a result, the storages from before are still in use.** -/
def Keeps (x : Action α) : Prop :=
  ∀ w a w', x w = .ok a w' → w.Extends w'

namespace Keeps

theorem pure (a : α) : Keeps (Pure.pure a) := by
  intro w a' w' h
  obtain ⟨-, rfl⟩ := EStateM.Result.ok.inj h
  exact .refl w

theorem bind {x : Action α} {f : α → Action β} (hx : Keeps x) (hf : ∀ a, Keeps (f a)) :
    Keeps (x >>= f) := by
  intro w b w' h
  obtain ⟨a, w₁, hfirst, hrest⟩ := bind_eq_ok.mp h
  exact (hx w a w₁ hfirst).trans (hf a w₁ b w' hrest)

theorem lift (x : Outcome α) : Keeps (liftM x : Action α) := by
  intro w a w' h
  obtain ⟨-, rfl⟩ := ofOutcome_eq_ok.mp h
  exact .refl _

theorem reading (f : Workspace → Outcome α) : Keeps (Action.reading f) := by
  intro w a w' h
  obtain ⟨-, rfl⟩ := ofOutcome_eq_ok.mp h
  exact .refl _

theorem get : Keeps (get : Action Workspace) := by
  intro w a w' h
  obtain ⟨-, rfl⟩ := EStateM.Result.ok.inj h
  exact .refl _

theorem ite {c : Prop} [Decidable c] {x y : Action α} (hx : Keeps x) (hy : Keeps y) :
    Keeps (if c then x else y) := by
  split
  · exact hx
  · exact hy

end Keeps

/-! ## Actions that are never refused -/

/-- **From the workspace the action ends with the postcondition, unless it traps.** -/
def Achieves (w : Workspace) (x : Action α) (post : α → Workspace → Prop) : Prop :=
  (∃ a w', x w = .ok a w' ∧ post a w') ∨ ∃ t w', x w = .error (.trapped t) w'

namespace Achieves

variable {P : α → Workspace → Prop} {Q : β → Workspace → Prop}

theorem pure {a : α} (h : P a w) : Achieves w (Pure.pure a) P :=
  .inl ⟨a, w, rfl, h⟩

/-- **Two actions in a row**: the second starts from what the first has achieved. -/
theorem bind {x : Action α} {f : α → Action β} (hx : Achieves w x P)
    (hf : ∀ a w', P a w' → Achieves w' (f a) Q) : Achieves w (x >>= f) Q := by
  have hbind : (x >>= f) w = EStateM.bind x f w := rfl
  unfold EStateM.bind at hbind
  rcases hx with ⟨a, w₁, hx, hP⟩ | ⟨t, w₁, hx⟩
  · rw [hx] at hbind
    rcases hf a w₁ hP with ⟨b, w₂, hf, hQ⟩ | ⟨t, w₂, hf⟩
    · exact .inl ⟨b, w₂, hbind.trans hf, hQ⟩
    · exact .inr ⟨t, w₂, hbind.trans hf⟩
  · rw [hx] at hbind
    exact .inr ⟨t, w₁, hbind⟩

theorem mono {x : Action α} {P' : α → Workspace → Prop} (hx : Achieves w x P)
    (h : ∀ a w', P a w' → P' a w') : Achieves w x P' :=
  hx.imp_left fun ⟨a, w', hok, hP⟩ => ⟨a, w', hok, h a w' hP⟩

/-- An operation that does not look at the workspace leaves it as it is. -/
theorem ofOutcome {x : Outcome α} (hx : x.Accepted) (h : ∀ a, x = .ok a → P a w) :
    Achieves w (Action.ofOutcome x) P := by
  rcases hx.isOk_or_trap with ⟨a, rfl⟩ | ⟨t, rfl⟩
  · exact .inl ⟨a, w, rfl, h a rfl⟩
  · exact .inr ⟨t, w, rfl⟩

/-- **An operation that does not look at the workspace**, in front of an action. -/
theorem lift_bind {x : Outcome α} {f : α → Action β} (hx : x.Accepted)
    (hf : ∀ a, x = .ok a → Achieves w (f a) Q) : Achieves w ((liftM x : Action α) >>= f) Q := by
  refine Achieves.bind (P := fun a w' => x = .ok a ∧ w' = w)
    (ofOutcome hx fun a ha => ⟨ha, rfl⟩) ?_
  rintro a _ ⟨ha, rfl⟩
  exact hf a ha

/-- An operation that traps, in front of an action. -/
theorem lift_trap {x : Outcome α} {f : α → Action β} {t : Trap} (hx : x = trap t) :
    Achieves w ((liftM x : Action α) >>= f) Q := by
  subst hx
  exact .inr ⟨t, w, rfl⟩

/-- Looking at the workspace, in front of an action. -/
theorem get_bind {f : Workspace → Action β} (hf : Achieves w (f w) Q) :
    Achieves w ((get : Action Workspace) >>= f) Q :=
  hf

/-- What an action achieves it achieves with its result. -/
theorem result {x : Action α} (hx : Achieves w x P) :
    Achieves w x fun a w' => x w = .ok a w' ∧ P a w' :=
  hx.imp_left fun ⟨a, w', hok, hP⟩ => ⟨a, w', hok, hok, hP⟩

/-- Looking up what is there leaves the workspace as it is. -/
theorem reading {f : Workspace → Outcome α} {a : α} (hf : f w = .ok a) (h : P a w) :
    Achieves w (Action.reading f) P :=
  .inl ⟨a, w, ofOutcome_eq_ok.mpr ⟨hf, rfl⟩, h⟩

/-- An operation on the workspace that has a result changes it accordingly. -/
theorem changing {f : Workspace → Outcome Workspace} {P : Unit → Workspace → Prop}
    (hf : f w = .ok w') (h : P () w') : Achieves w (Action.changing f) P :=
  .inl ⟨(), w', changing_eq_ok.mpr hf, h⟩

/-- An action that does not trap ends with the postcondition. -/
theorem exists_ok {x : Action α} (hx : Achieves w x P)
    (ht : ∀ t w', x w ≠ .error (.trapped t) w') : ∃ a w', x w = .ok a w' ∧ P a w' :=
  hx.resolve_right fun ⟨t, w', h⟩ => ht t w' h

/-- The result of an action satisfies the postcondition. -/
theorem post {x : Action α} (hx : Achieves w x P) {a : α} (h : x w = .ok a w') : P a w' := by
  rcases hx with ⟨a', w₁, hok, hP⟩ | ⟨t, w₁, htrap⟩
  · rw [h] at hok
    cases hok
    exact hP
  · rw [h] at htrap
    exact nomatch htrap

end Achieves

end Action

end StridedArray
