import Mathlib.Data.List.Perm.Subperm
import RubySyntax.Proofs.JsonReading
import RubySyntax.SharedValue

/-!
# Values that are held by the parts of a shared value

A part that holds a value is unfolded into that value.  What is inside a value is smaller
than the value, so no container that holds one lies inside itself, and as many containers
as there are bound the depth.
-/

namespace RubySyntax

/-! ### Fields under texts -/

/-- A field of a record: its key, the part that stands there and the value that it holds. -/
structure HeldField where
  key : String
  part : SharedPart
  value : Value

namespace SharedPart

def namedFields (fields : List (String × SharedPart)) : List (SharedPart × SharedPart) :=
  fields.map fun field => (.plain (.text field.1), field.2)

/-- A record keeps the fields before one with another name. -/
theorem putEntry_namedFields {fields : List (String × SharedPart)} {name : String}
    (fresh : name ∉ fields.map Prod.fst) (part : SharedPart) :
    putEntry (namedFields fields) (.plain (.text name)) part =
      namedFields (fields ++ [(name, part)]) := by
  have apart : ((namedFields fields).any fun entry =>
      sameKey entry.1 (.plain (.text name))) = false := by
    rw [List.any_eq_false]
    intro entry member
    obtain ⟨⟨other, held⟩, named, rfl⟩ := List.mem_map.mp member
    have differs : other ≠ name := by
      rintro rfl
      exact fresh (List.mem_map_of_mem named)
    simpa [sameKey, Value.sameKey, Value.equalInteger?] using differs
  rw [putEntry, apart, if_neg Bool.false_ne_true]
  simp [namedFields]

end SharedPart

namespace HeldField

def parts (fields : List HeldField) : List (SharedPart × SharedPart) :=
  SharedPart.namedFields (fields.map fun field => (field.key, field.part))

def entries (fields : List HeldField) : List (Value × Value) :=
  Value.namedEntries (fields.map fun field => (field.key, field.value))

theorem parts_eq (fields : List HeldField) :
    parts fields = fields.map fun field => (.plain (.text field.key), field.part) :=
  List.map_map

theorem entries_eq (fields : List HeldField) :
    entries fields = fields.map fun field => (.text field.key, field.value) :=
  List.map_map

end HeldField

namespace SharedValue

/-! ### Parts that hold values -/

/-- A part holds a value if it is the value, a text or an integer, or a container whose parts
hold the parts of the value. -/
inductive Holds (shared : SharedValue) : SharedPart → Value → Prop
  | text (text : String) : Holds shared (.plain (.text text)) (.text text)
  | int (value : Int) : Holds shared (.plain (.int value)) (.int value)
  | list {place : Nat} {items : List (SharedPart × Value)}
      (container_eq : shared.containers[place]? = some (.list (items.map Prod.fst)))
      (each : ∀ item ∈ items, Holds shared item.1 item.2) :
      Holds shared (.container place) (.list (items.map Prod.snd))
  | record {place : Nat} {fields : List HeldField}
      (container_eq : shared.containers[place]? = some (.record (HeldField.parts fields)))
      (each : ∀ field ∈ fields, Holds shared field.part field.value) :
      Holds shared (.container place) (.record (HeldField.entries fields))

/-- What one image of a list determines about each item, it determines about the list. -/
theorem map_eq_of_map_eq {α β γ : Type} {known : α → β} {sought : α → γ} {items others : List α}
    (same : items.map known = others.map known)
    (each : ∀ item ∈ items, ∀ other ∈ others, known item = known other →
      sought item = sought other) : items.map sought = others.map sought := by
  induction items generalizing others with
  | nil =>
      obtain rfl := List.map_eq_nil_iff.mp same.symm
      rfl
  | cons item items ih =>
      obtain ⟨other, others, rfl, same_head, same_tail⟩ := List.map_eq_cons_iff.mp same.symm
      rw [List.map_cons, List.map_cons, each item (.head _) other (.head _) same_head.symm,
        ih same_tail.symm fun item member other among =>
          each item (.tail _ member) other (.tail _ among)]

variable {shared : SharedValue} {part : SharedPart} {value other : Value} {place : Nat}

theorem Holds.unique (holds : shared.Holds part value) (holdsOther : shared.Holds part other) :
    value = other := by
  -- A container determines its parts, and by induction each part determines its value.
  induction holds generalizing other with
  | text => cases holdsOther; rfl
  | int => cases holdsOther; rfl
  | list container_eq each ih =>
      cases holdsOther with
      | list otherContainer eachOther =>
          have same := SharedContainer.list.inj
            (Option.some.inj (container_eq.symm.trans otherContainer))
          refine congrArg Value.list (map_eq_of_map_eq same fun item member other among equal => ?_)
          exact ih item member (equal ▸ eachOther other among)
      | record otherContainer => cases container_eq.symm.trans otherContainer
  | record container_eq each ih =>
      cases holdsOther with
      | list otherContainer => cases container_eq.symm.trans otherContainer
      | record otherContainer eachOther =>
          have same := SharedContainer.record.inj
            (Option.some.inj (container_eq.symm.trans otherContainer))
          rw [HeldField.parts_eq, HeldField.parts_eq] at same
          rw [HeldField.entries_eq, HeldField.entries_eq]
          refine congrArg Value.record
            (map_eq_of_map_eq same fun field member other among equal => ?_)
          obtain ⟨key_eq, part_eq⟩ := Prod.mk.inj equal
          rw [ih field member (part_eq ▸ eachOther other among),
            Value.text.inj (SharedPart.plain.inj key_eq)]

/-! ### Containers around a part -/

/-- The containers around a part differ from each other, and each holds only values that are
greater than the one of the part. -/
structure Surrounds (shared : SharedValue) (around : List Nat) (value : Value) : Prop where
  distinct : around.Nodup
  inside : ∀ place ∈ around, place < shared.containers.size
  greater : ∀ place ∈ around, ∀ outer, shared.Holds (.container place) outer →
    sizeOf value < sizeOf outer

namespace Surrounds

variable {around : List Nat} {inner : Value}

theorem nil (shared : SharedValue) (value : Value) : shared.Surrounds [] value :=
  ⟨List.nodup_nil, by simp, by simp⟩

theorem length_le (surrounds : shared.Surrounds around value) :
    around.length ≤ shared.containers.size := by
  have among : around ⊆ List.range shared.containers.size := fun place member =>
    List.mem_range.mpr (surrounds.inside place member)
  simpa using (surrounds.distinct.subperm among).length_le

/-- A bound of more than the containers that are not around a part is not used up. -/
theorem exists_bound (surrounds : shared.Surrounds around value) {bound : Nat}
    (enough : shared.containers.size < bound + around.length) : ∃ less, bound = less + 1 := by
  have few := surrounds.length_le
  exact Nat.exists_eq_succ_of_ne_zero (by omega)

theorem not_mem (surrounds : shared.Surrounds around value)
    (holds : shared.Holds (.container place) value) : place ∉ around := fun member =>
  absurd (surrounds.greater place member value holds) (Nat.lt_irrefl _)

theorem cons (surrounds : shared.Surrounds around value)
    (holds : shared.Holds (.container place) value) (inside : place < shared.containers.size)
    (smaller : sizeOf inner < sizeOf value) : shared.Surrounds (place :: around) inner where
  distinct := List.nodup_cons.mpr ⟨surrounds.not_mem holds, surrounds.distinct⟩
  inside := by
    rintro other (_ | ⟨_, member⟩)
    · exact inside
    · exact surrounds.inside other member
  greater := by
    rintro other (_ | ⟨_, member⟩) outer holdsOuter
    · -- The container holds one value only, so whatever it holds is greater than its part.
      rwa [holdsOuter.unique holds]
    · exact Nat.lt_trans smaller (surrounds.greater other member outer holdsOuter)

end Surrounds

/-! ### Unfolding -/

theorem sizeOf_item_lt {items : List (SharedPart × Value)} {item : SharedPart × Value}
    (member : item ∈ items) : sizeOf item.2 < sizeOf (Value.list (items.map Prod.snd)) := by
  have smaller := List.sizeOf_lt_of_mem (List.mem_map_of_mem member : item.2 ∈ items.map Prod.snd)
  rw [Value.list.sizeOf_spec]
  omega

theorem sizeOf_field_lt {fields : List HeldField} {field : HeldField} (member : field ∈ fields) :
    sizeOf field.value < sizeOf (Value.record (HeldField.entries fields)) := by
  have among : (Value.text field.key, field.value) ∈ HeldField.entries fields := by
    rw [HeldField.entries_eq]
    exact List.mem_map_of_mem member
  have smaller := List.sizeOf_lt_of_mem among
  rw [Value.record.sizeOf_spec]
  rw [Prod.mk.sizeOf_spec] at smaller
  omega

theorem Holds.place_lt (holds : shared.Holds (.container place) value) :
    place < shared.containers.size := by
  cases holds with
  | list container_eq => exact (Array.getElem?_eq_some_iff.mp container_eq).1
  | record container_eq => exact (Array.getElem?_eq_some_iff.mp container_eq).1

/-- A part that holds a value is unfolded into the value where the bound is more than the number
of containers that are not around it. -/
theorem Holds.unfoldWithin_eq (holds : shared.Holds part value) {around : List Nat}
    (surrounds : shared.Surrounds around value) {bound : Nat}
    (enough : shared.containers.size < bound + around.length) :
    shared.unfoldWithin bound (around.map fun place => ⟨place, none⟩) part = value := by
  induction holds generalizing around bound with
  | text => rw [unfoldWithin]
  | int => rw [unfoldWithin]
  | @list place items container_eq each ih =>
      have holds : shared.Holds (.container place) _ := .list container_eq each
      obtain ⟨bound, rfl⟩ := surrounds.exists_bound enough
      have apart : (around.map fun place => (⟨place, none⟩ : SharedPlace)).contains ⟨place, none⟩ =
          false := by simpa using surrounds.not_mem holds
      rw [unfoldWithin, container_eq]
      simp only [apart, Bool.false_eq_true, if_false, List.map_map]
      refine congrArg Value.list (List.map_congr_left fun item member => ?_)
      refine ih item member (surrounds.cons holds holds.place_lt (sizeOf_item_lt member)) ?_
      rw [List.length_cons]
      omega
  | @record place fields container_eq each ih =>
      have holds : shared.Holds (.container place) _ := .record container_eq each
      obtain ⟨bound, rfl⟩ := surrounds.exists_bound enough
      have apart : (around.map fun place => (⟨place, none⟩ : SharedPlace)).contains ⟨place, none⟩ =
          false := by simpa using surrounds.not_mem holds
      rw [unfoldWithin, container_eq]
      simp only [apart, Bool.false_eq_true, if_false]
      rw [HeldField.parts_eq, HeldField.entries_eq, List.map_map]
      refine congrArg Value.record (List.map_congr_left fun field member => ?_)
      rw [Function.comp_apply, unfoldWithin]
      refine congrArg (Prod.mk _) (ih field member
        (surrounds.cons holds holds.place_lt (sizeOf_field_lt member)) ?_)
      rw [List.length_cons]
      omega

/-- A part that holds a value is unfolded into the value. -/
theorem Holds.unfold_eq (holds : shared.Holds part value) : shared.unfold [] part = value :=
  holds.unfoldWithin_eq (.nil shared value) (by rw [List.length_nil]; omega)

/-! ### Containers with their parts in order -/

/-- A list whose items hold values holds the list of the values. -/
theorem Holds.of_items {parts : List SharedPart} {values : List Value}
    (container_eq : shared.containers[place]? = some (.list parts))
    (each : List.Forall₂ shared.Holds parts values) :
    shared.Holds (.container place) (.list values) := by
  obtain ⟨length_eq, holds⟩ := List.forall₂_iff_zip.mp each
  have parts_eq : (parts.zip values).map Prod.fst = parts :=
    List.map_fst_zip (Nat.le_of_eq length_eq)
  have values_eq : (parts.zip values).map Prod.snd = values :=
    List.map_snd_zip (Nat.le_of_eq length_eq.symm)
  rw [← values_eq]
  exact .list (parts_eq.symm ▸ container_eq) fun item member => holds member

/-- A record whose fields under texts hold values holds the record of the values. -/
theorem Holds.of_fields {parts : List (SharedPart × SharedPart)} {entries : List (String × Value)}
    (container_eq : shared.containers[place]? = some (.record parts))
    (each : List.Forall₂ (fun part entry => part.1 = .plain (.text entry.1) ∧
      shared.Holds part.2 entry.2) parts entries) :
    shared.Holds (.container place) (.record (Value.namedEntries entries)) := by
  obtain ⟨fields, rfl, entries_eq, holds⟩ : ∃ fields, HeldField.parts fields = parts ∧
      HeldField.entries fields = Value.namedEntries entries ∧
      ∀ field ∈ fields, shared.Holds field.part field.value := by
    clear container_eq
    induction each with
    | nil => exact ⟨[], rfl, rfl, by simp⟩
    | @cons part entry parts entries here _ ih =>
        obtain ⟨fields, rfl, entries_eq, holds⟩ := ih
        obtain ⟨key, value⟩ := part
        obtain ⟨rfl, holdsValue⟩ := here
        refine ⟨⟨entry.1, value, entry.2⟩ :: fields, rfl, ?_, ?_⟩
        · rw [Value.namedEntries_cons, ← entries_eq]
          rfl
        · rintro field (_ | ⟨_, member⟩)
          · exact holdsValue
          · exact holds field member
  rw [← entries_eq]
  exact .record container_eq holds

theorem Holds.items {values : List Value} (holds : shared.Holds part (.list values)) :
    ∃ place parts, part = .container place ∧ shared.containers[place]? = some (.list parts) ∧
      List.Forall₂ shared.Holds parts values := by
  cases holds with
  | @list place items container_eq each =>
      refine ⟨place, _, rfl, container_eq, ?_⟩
      rw [List.forall₂_map_left_iff, List.forall₂_map_right_iff, List.forall₂_same]
      exact each

theorem Holds.fields {entries : List (Value × Value)}
    (holds : shared.Holds part (.record entries)) :
    ∃ place fields, part = .container place ∧
      shared.containers[place]? = some (.record (HeldField.parts fields)) ∧
      entries = HeldField.entries fields ∧
      ∀ field ∈ fields, shared.Holds field.part field.value := by
  cases holds with
  | record container_eq each => exact ⟨_, _, rfl, container_eq, rfl, each⟩

end SharedValue

end RubySyntax
