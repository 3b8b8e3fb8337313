import Mast.Lib.Binary64
import Mast.Lib.OrdMap
import Mathlib.Data.String.Basic

/-!
# JSON values

A parsed JSON document, as a library of the usual kind holds it: a number is a 64-bit
integer or a finite binary64 number, and an object is a map ordered by its names.

Readers take a value to the data it stands for, and fail on everything else. A structure is
written as an object, and is read from an array of its fields too. The content of an
enumeration with a tag is buffered, and some data inside of it is read more freely.
Traversals change some parts of a value in place and collect something from each of them.

Results:
1. `get_ofFields`: reading a field of an object that was built from its fields.
2. `get_atField_self`, `get_atField_ne`: what a change in a field does to the fields.
3. `keyed_ofFields`: a map that is written as an object is read back.
-/

namespace Json

inductive Number
  | posInt (n : UInt64)
  | negInt (n : Int64) (negative : n < 0)
  | float (x : F64) (finite : x.isFinite = true)

inductive Value
  | null
  | bool (b : Bool)
  | number (n : Number)
  | string (s : String)
  | array (items : List Value)
  | object (fields : List (String × Value))

namespace Value

/-! ## Building -/

/-- An object with these fields. -/
def ofFields (fields : List (String × Value)) : Value := .object (OrdMap.ofList fields).entries

def ofUInt64 (n : UInt64) : Value := .number (.posInt n)

/-- A number that JSON cannot write is written as `null`. -/
def ofF64 (x : F64) : Value :=
  if h : x.isFinite = true then .number (.float x h) else .null

def ofOption {α : Type} (f : α → Value) : Option α → Value
  | none => .null
  | some a => f a

/-! ## Reading -/

/-- The value of a field. -/
def get (v : Value) (key : String) : Option Value :=
  match v with
  | .object fields => (fields.find? fun e => e.1 = key).map Prod.snd
  | _ => none

def asUInt64 : Value → Option UInt64
  | .number (.posInt n) => some n
  | _ => none

def asUInt32 : Value → Option UInt32
  | .number (.posInt n) => if n.toNat < 2 ^ 32 then some (UInt32.ofNat n.toNat) else none
  | _ => none

/-- Integers are rounded. -/
def asF64 : Value → Option F64
  | .number (.posInt n) => some (F64.ofNat n.toNat)
  | .number (.negInt n _) => some (F64.ofInt n.toInt)
  | .number (.float x _) => some x
  | _ => none

def asBool : Value → Option Bool
  | .bool b => some b
  | _ => none

def asString : Value → Option String
  | .string s => some s
  | _ => none

/-- `null`, or what the reader takes. -/
def asOption {α : Type} (f : Value → Option α) : Value → Option (Option α)
  | .null => some none
  | v => (f v).map some

def asList {α : Type} (f : Value → Option α) : Value → Option (List α)
  | .array items => items.mapM f
  | _ => none

/-- One of some names; also as an object of the name and `null`. -/
def asName {α : Type} (names : List (String × α)) : Value → Option α
  | .string s => names.lookup s
  | .object [(s, .null)] => names.lookup s
  | _ => none

/-- A field that must be there. -/
def field {α : Type} (key : String) (f : Value → Option α) (v : Value) : Option α :=
  (v.get key).bind f

/-- A field that may be missing, or `null`. -/
def fieldOption {α : Type} (key : String) (f : Value → Option α) (v : Value) : Option (Option α) :=
  match v.get key with
  | none => some none
  | some w => asOption f w

/-- The fields of a structure. An array has them in the order of the names, of which the
last `optional` may be missing. -/
def fieldsOf (names : List String) (optional : Nat) : Value → Option Value
  | .array items =>
    if items.length ≤ names.length ∧ names.length ≤ items.length + optional then
      some (.object (names.zip items))
    else none
  | v => some v

/-- A structure whose fields have these names. -/
def asStruct {α : Type} (names : List String) (optional : Nat) (f : Value → Option α)
    (v : Value) : Option α :=
  (fieldsOf names optional v).bind f

/-- The tag of an enumeration with data, and its content: the `type` of an object, or the
first item of an array. -/
def tagged (f : Value → Option String) : Value → Option (String × Value)
  | .object fields => (field "type" f (.object fields)).map fun tag => (tag, .object fields)
  | .array (first :: items) => (f first).map fun tag => (tag, .array items)
  | _ => none

/-- A tag inside of buffered content: a name, or its place among the names. -/
def asTag (names : List String) : Value → Option String
  | .string s => some s
  | .number (.posInt n) => names[n.toNat]?
  | _ => none

/-- One of some names inside of buffered content, where an empty object may stand for
`null`. -/
def asBufferedName {α : Type} (names : List (String × α)) : Value → Option α
  | .object [(s, .object [])] => names.lookup s
  | v => asName names v

/-- A number as the name of a field: decimal, without a sign or leading zeros, which is
how it is written. -/
def asKey (s : String) : Option UInt64 :=
  let n := Nat.ofDigitChars 10 s.toList 0
  if n < 2 ^ 64 ∧ n.repr = s then some (UInt64.ofNat n) else none

/-- An object as a map. -/
def keyed {κ α : Type} [LinearOrder κ] (key : String → Option κ) (f : Value → Option α) :
    Value → Option (OrdMap κ α)
  | .object fields =>
    (fields.mapM fun e => (key e.1).bind fun k => (f e.2).map fun a => (k, a)).map OrdMap.ofList
  | _ => none

/-! ## Parts -/

def isArray : Value → Bool
  | .array _ => true
  | _ => false

/-- The items of an array. -/
def items : Value → List Value
  | .array items => items
  | _ => []

/-- The values of the fields of an object. -/
def values : Value → List Value
  | .object fields => fields.map Prod.snd
  | _ => []

/-! ## Changing -/

/-- Change the value of a field, in a list of fields. -/
def atFirst {α : Type} (key : String) (f : Value → Value × List α) :
    List (String × Value) → List (String × Value) × List α
  | [] => ([], [])
  | (k, v) :: rest =>
    if k = key then ((k, (f v).1) :: rest, (f v).2)
    else ((k, v) :: (atFirst key f rest).1, (atFirst key f rest).2)

/-- Change the value of a field, if the value is an object and has it. -/
def atField {α : Type} (key : String) (f : Value → Value × List α) : Value → Value × List α
  | .object fields => (.object (atFirst key f fields).1, (atFirst key f fields).2)
  | v => (v, [])

/-- Change every item, if the value is an array. -/
def eachItem {α : Type} (f : Value → Value × List α) : Value → Value × List α
  | .array items => (.array (items.map fun v => (f v).1), items.flatMap fun v => (f v).2)
  | v => (v, [])

/-- Change the values of all fields, if the value is an object. -/
def eachField {α : Type} (f : Value → Value × List α) : Value → Value × List α
  | .object fields =>
    (.object (fields.map fun e => (e.1, (f e.2).1)), fields.flatMap fun e => (f e.2).2)
  | v => (v, [])

/-- Change the value of a field and collect nothing. -/
def mapField (key : String) (f : Value → Value) (v : Value) : Value :=
  (atField key (fun w => (f w, ([] : List Unit))) v).1

/-- Keep the items that pass a test, if the value is an array. -/
def keepItems (p : Value → Bool) : Value → Value
  | .array items => .array (items.filter p)
  | v => v

end Value

namespace JsonLemmas

open Value

variable {α β : Type}

/-! ## Fields -/

/-- An object that was built from its fields has them. -/
theorem get_ofFields {fields : List (String × Value)} (h : (fields.map Prod.fst).Nodup)
    (key : String) : (ofFields fields).get key = fields.lookup key := by
  refine Option.ext fun v => ?_
  refine (OrdMap.get?_ofList h).trans ?_
  rw [List.lookup_eq_some_iff]
  constructor
  · intro hmem
    obtain ⟨before, after, rfl⟩ := List.append_of_mem hmem
    refine ⟨before, after, rfl, fun e he => bne_iff_ne.mpr fun heq => ?_⟩
    rw [List.map_append, List.map_cons, List.nodup_middle, List.nodup_cons] at h
    refine h.1 (List.mem_append_left _ (?_ : key ∈ _))
    rw [heq]
    exact List.mem_map_of_mem he
  · rintro ⟨before, after, rfl, -⟩
    exact List.mem_append_right _ List.mem_cons_self

theorem get_atFirst_self (key : String) (f : Value → Value × List α)
    (fields : List (String × Value)) :
    get (.object (atFirst key f fields).1) key =
      (get (.object fields) key).map fun v => (f v).1 := by
  induction fields with
  | nil => rfl
  | cons e rest ih =>
    obtain ⟨k, v⟩ := e
    rw [atFirst]
    split
    next h => simp [Value.get, h]
    next h => simpa [Value.get, h] using ih

theorem get_atFirst_ne {key key' : String} (hne : key' ≠ key) (f : Value → Value × List α)
    (fields : List (String × Value)) :
    get (.object (atFirst key f fields).1) key' = get (.object fields) key' := by
  induction fields with
  | nil => rfl
  | cons e rest ih =>
    obtain ⟨k, v⟩ := e
    rw [atFirst]
    split
    next h => simp [Value.get, h, hne.symm]
    next h =>
      by_cases hk : k = key'
      · simp [Value.get, hk]
      · simpa [Value.get, hk] using ih

theorem snd_atFirst (key : String) (f : Value → Value × List α) (fields : List (String × Value)) :
    (atFirst key f fields).2 = ((get (.object fields) key).map fun v => (f v).2).getD [] := by
  induction fields with
  | nil => rfl
  | cons e rest ih =>
    obtain ⟨k, v⟩ := e
    rw [atFirst]
    split
    next h => simp [Value.get, h]
    next h => simpa [Value.get, h] using ih

theorem get_atField_self (key : String) (f : Value → Value × List α) (v : Value) :
    (atField key f v).1.get key = (v.get key).map fun w => (f w).1 := by
  cases v with
  | object fields => exact get_atFirst_self key f fields
  | _ => rfl

theorem get_atField_ne {key key' : String} (hne : key' ≠ key) (f : Value → Value × List α)
    (v : Value) : (atField key f v).1.get key' = v.get key' := by
  cases v with
  | object fields => exact get_atFirst_ne hne f fields
  | _ => rfl

theorem snd_atField (key : String) (f : Value → Value × List α) (v : Value) :
    (atField key f v).2 = ((v.get key).map fun w => (f w).2).getD [] := by
  cases v with
  | object fields => exact snd_atFirst key f fields
  | _ => rfl

theorem get_mapField_self (key : String) (f : Value → Value) (v : Value) :
    (mapField key f v).get key = (v.get key).map f := get_atField_self key _ v

theorem get_mapField_ne {key key' : String} (hne : key' ≠ key) (f : Value → Value) (v : Value) :
    (mapField key f v).get key' = v.get key' := get_atField_ne hne _ v

theorem atField_unchanged {key : String} {f : Value → Value × List α} {v : Value}
    (h : ∀ w, v.get key = some w → f w = (w, [])) : atField key f v = (v, []) := by
  cases v with
  | object fields =>
    have hfirst : atFirst key f fields = (fields, []) := by
      induction fields with
      | nil => rfl
      | cons e rest ih =>
        obtain ⟨k, v⟩ := e
        rw [atFirst]
        split
        next hk => rw [h v (by simp [Value.get, hk])]
        next hk => rw [ih fun w hw => h w (by simpa [Value.get, hk] using hw)]
    rw [atField, hfirst]
  | _ => rfl

theorem eachItem_unchanged {f : Value → Value × List α} {items : List Value}
    (h : ∀ v ∈ items, f v = (v, [])) : eachItem f (.array items) = (.array items, []) := by
  have hitems : items.map (fun v => (f v).1) = items :=
    (List.map_congr_left fun v hv => congrArg Prod.fst (h v hv)).trans (List.map_id' items)
  have hnone : items.flatMap (fun v => (f v).2) = [] :=
    List.flatMap_eq_nil_iff.mpr fun v hv => congrArg Prod.snd (h v hv)
  rw [eachItem, hitems, hnone]

theorem eachField_unchanged {f : Value → Value × List α} {fields : List (String × Value)}
    (h : ∀ e ∈ fields, f e.2 = (e.2, [])) :
    eachField f (.object fields) = (.object fields, []) := by
  have hfields : fields.map (fun e => (e.1, (f e.2).1)) = fields := by
    refine (List.map_congr_left fun e he => ?_).trans (List.map_id' fields)
    rw [h e he]
  have hnone : fields.flatMap (fun e => (f e.2).2) = [] :=
    List.flatMap_eq_nil_iff.mpr fun e he => congrArg Prod.snd (h e he)
  rw [eachField, hfields, hnone]

/-! ## Traversals

Two changes in a row are one, and what is collected comes from the parts in their order. -/

theorem atField_atField (key : String) (f : Value → Value × List α) (g : Value → Value × List β)
    (v : Value) : atField key f (atField key g v).1 = atField key (fun w => f (g w).1) v := by
  cases v with
  | object fields =>
    have hfirst : atFirst key f (atFirst key g fields).1 =
        atFirst key (fun w => f (g w).1) fields := by
      induction fields with
      | nil => rfl
      | cons e rest ih =>
        obtain ⟨k, v⟩ := e
        by_cases hk : k = key
        · simp [atFirst, hk]
        · simp [atFirst, hk, ih]
    simp only [atField, hfirst]
  | _ => rfl

theorem eachItem_eachItem (f : Value → Value × List α) (g : Value → Value × List β) (v : Value) :
    eachItem f (eachItem g v).1 = eachItem (fun w => f (g w).1) v := by
  cases v with
  | array items => simp [eachItem, List.flatMap_map, Function.comp_def]
  | _ => rfl

theorem eachField_eachField (f : Value → Value × List α) (g : Value → Value × List β) (v : Value) :
    eachField f (eachField g v).1 = eachField (fun w => f (g w).1) v := by
  cases v with
  | object fields => simp [eachField, List.flatMap_map, Function.comp_def]
  | _ => rfl

theorem collect_atField (key : String) (f : Value → Value × List α) (v : Value) :
    (atField key f v).2 = (v.get key).toList.flatMap fun w => (f w).2 := by
  rw [snd_atField]
  cases v.get key <;> simp

theorem collect_eachItem (f : Value → Value × List α) (v : Value) :
    (eachItem f v).2 = v.items.flatMap fun w => (f w).2 := by
  cases v <;> rfl

theorem collect_eachField (f : Value → Value × List α) (v : Value) :
    (eachField f v).2 = v.values.flatMap fun w => (f w).2 := by
  cases v with
  | object fields => simp [eachField, values, List.flatMap_map]
  | _ => rfl

/-- Leaving parts out before something is collected from each, or after. -/
theorem flatMap_filter {f : α → List β} {p : α → Bool} {q : β → Bool} {l : List α}
    (h : ∀ a ∈ l, ∀ b ∈ f a, q b = p a) :
    (l.filter p).flatMap f = (l.flatMap f).filter q := by
  induction l with
  | nil => rfl
  | cons a l ih =>
    have hrest := ih fun b hb => h b (List.mem_cons_of_mem _ hb)
    have hfirst := h a List.mem_cons_self
    rw [List.flatMap_cons, List.filter_append, ← hrest]
    cases hp : p a with
    | true =>
      have hall : (f a).filter q = f a :=
        List.filter_eq_self.mpr fun b hb => (hfirst b hb).trans hp
      rw [hall, List.filter_cons_of_pos hp, List.flatMap_cons]
    | false =>
      have hnone : (f a).filter q = [] :=
        List.filter_eq_nil_iff.mpr fun b hb => by simp [hfirst b hb, hp]
      rw [hnone, List.filter_cons_of_neg (by simp [hp]), List.nil_append]

/-! ## Readers -/

@[simp] theorem asUInt64_ofUInt64 (n : UInt64) : asUInt64 (ofUInt64 n) = some n := rfl

theorem asUInt32_ofUInt64 (n : UInt32) : asUInt32 (ofUInt64 n.toUInt64) = some n := by
  have hlt : n.toUInt64.toNat < 2 ^ 32 := n.toNat_lt
  rw [ofUInt64, asUInt32, if_pos hlt]
  exact congrArg some (UInt32.ofNat_toNat)

theorem asF64_ofF64 {x : F64} (h : x.isFinite = true) : asF64 (ofF64 x) = some x := by
  rw [ofF64, dif_pos h]
  rfl

/-- A number that is read is finite. -/
theorem isFinite_of_asF64 {v : Value} {x : F64} (h : asF64 v = some x) : x.isFinite = true := by
  unfold asF64 at h
  split at h
  next n =>
    cases h
    exact F64.isFinite_ofNat n.toNat_lt
  next n hn =>
    cases h
    refine F64.isFinite_ofInt ?_
    have hlo := n.le_toInt
    have hhi := n.toInt_lt
    omega
  next x hx =>
    cases h
    exact hx
  next => cases h

/-- Optional data that is not written as `null` is read back. -/
theorem asOption_ofOption {f : Value → Option α} {g : α → Value} (hread : ∀ b, f (g b) = some b)
    (hnull : f .null = none) (a : Option α) : asOption f (ofOption g a) = some a := by
  cases a with
  | none => rfl
  | some b =>
    have hread := hread b
    rw [ofOption]
    unfold asOption
    split
    next heq =>
      rw [heq, hnull] at hread
      cases hread
    next => rw [hread]; rfl

theorem mapM_eq_some_of_forall {f : α → Option β} {g : β → α} {l : List β}
    (h : ∀ b ∈ l, f (g b) = some b) : (l.map g).mapM f = some l := by
  induction l with
  | nil => rfl
  | cons b rest ih =>
    rw [List.map_cons, List.mapM_cons, h b List.mem_cons_self,
      ih fun b hb => h b (List.mem_cons_of_mem _ hb)]
    rfl

theorem asKey_repr (n : UInt64) : asKey n.toNat.repr = some n := by
  simp [asKey, n.toNat_lt]

theorem mapM_cons_eq_some {f : α → Option β} {a : α} {l : List α} {bs : List β} :
    (a :: l).mapM f = some bs ↔ ∃ b rest, f a = some b ∧ l.mapM f = some rest ∧ bs = b :: rest := by
  rw [List.mapM_cons]
  cases hf : f a with
  | none => simp
  | some b =>
    cases hl : l.mapM f with
    | none => simp
    | some rest => simp [eq_comm]

theorem mem_of_mapM {f : α → Option β} {l : List α} {bs : List β} (h : l.mapM f = some bs) {b : β}
    (hb : b ∈ bs) : ∃ a ∈ l, f a = some b := by
  induction l generalizing bs with
  | nil =>
    obtain rfl : [] = bs := Option.some_inj.mp h
    cases hb
  | cons a l ih =>
    obtain ⟨b', rest, hfirst, hrest, rfl⟩ := mapM_cons_eq_some.mp h
    rcases List.mem_cons.mp hb with rfl | hb
    · exact ⟨a, List.mem_cons_self, hfirst⟩
    · obtain ⟨a', ha', hfa⟩ := ih hrest hb
      exact ⟨a', List.mem_cons_of_mem _ ha', hfa⟩

theorem exists_of_mapM {f : α → Option β} {l : List α} {bs : List β} (h : l.mapM f = some bs)
    {a : α} (ha : a ∈ l) : ∃ b ∈ bs, f a = some b := by
  induction l generalizing bs with
  | nil => cases ha
  | cons a' l ih =>
    obtain ⟨b, rest, hfirst, hrest, rfl⟩ := mapM_cons_eq_some.mp h
    rcases List.mem_cons.mp ha with rfl | ha
    · exact ⟨b, List.mem_cons_self, hfirst⟩
    · obtain ⟨b', hb', hfa⟩ := ih hrest ha
      exact ⟨b', List.mem_cons_of_mem _ hb', hfa⟩

/-- Reading what was changed is changing what was read. -/
theorem mapM_eq_map {f f' : α → Option β} {g : β → β} {l : List α}
    (h : ∀ a ∈ l, f' a = (f a).map g) : l.mapM f' = (l.mapM f).map (List.map g) := by
  induction l with
  | nil => rfl
  | cons a l ih =>
    rw [List.mapM_cons, List.mapM_cons, h a List.mem_cons_self,
      ih fun b hb => h b (List.mem_cons_of_mem _ hb)]
    cases f a with
    | none => rfl
    | some b => cases l.mapM f <;> rfl

/-- Reading some items of a list is reading all of them and leaving the others out, as long
as those can be read. -/
theorem mapM_filter {f : α → Option β} {p : α → Bool} {q : β → Bool} {l : List α}
    (hout : ∀ a ∈ l, p a = false → (f a).isSome)
    (hsame : ∀ a ∈ l, ∀ b, f a = some b → q b = p a) :
    (l.filter p).mapM f = (l.mapM f).map (List.filter q) := by
  induction l with
  | nil => rfl
  | cons a l ih =>
    have ih := ih (fun b hb => hout b (List.mem_cons_of_mem _ hb)) fun b hb =>
      hsame b (List.mem_cons_of_mem _ hb)
    cases hp : p a with
    | false =>
      obtain ⟨b, hb⟩ := Option.isSome_iff_exists.mp (hout a List.mem_cons_self hp)
      have hq : q b = false := (hsame a List.mem_cons_self b hb).trans hp
      rw [List.filter_cons_of_neg (by simp [hp]), ih, List.mapM_cons, hb]
      cases l.mapM f with
      | none => rfl
      | some bs => exact congrArg some (List.filter_cons_of_neg (by simp [hq])).symm
    | true =>
      rw [List.filter_cons_of_pos hp, List.mapM_cons, List.mapM_cons, ih]
      cases hb : f a with
      | none => rfl
      | some b =>
        have hq : q b = true := (hsame a List.mem_cons_self b hb).trans hp
        cases l.mapM f with
        | none => rfl
        | some bs => exact congrArg some (List.filter_cons_of_pos hq).symm

/-- A field that is read as before, when what follows is changed. -/
theorem bind_eq_map {x : Option α} {k k' : α → Option β} {g : β → β}
    (h : ∀ a, k' a = (k a).map g) : x.bind k' = (x.bind k).map g := by
  cases x with
  | none => rfl
  | some a => exact h a

/-- A field that is read with a change. -/
theorem map_bind_eq_map {x : Option α} {c : α → α} {k k' : α → Option β} {g : β → β}
    (h : ∀ a, k' (c a) = (k a).map g) : (x.map c).bind k' = (x.bind k).map g := by
  cases x with
  | none => rfl
  | some a => exact h a

theorem field_eq_some {f : Value → Option α} {key : String} {v : Value} {a : α} :
    field key f v = some a ↔ ∃ w, v.get key = some w ∧ f w = some a :=
  Option.bind_eq_some_iff

theorem asStruct_of_not_array {names : List String} {optional : Nat} {f : Value → Option α}
    {v : Value} (h : v.isArray = false) : asStruct names optional f v = f v := by
  cases v with
  | array items => cases h
  | _ => rfl

@[simp] theorem asStruct_ofFields (names : List String) (optional : Nat) (f : Value → Option α)
    (fields : List (String × Value)) :
    asStruct names optional f (ofFields fields) = f (ofFields fields) := rfl

theorem tagged_ofFields (f : Value → Option String) (fields : List (String × Value)) :
    tagged f (ofFields fields) =
      (field "type" f (ofFields fields)).map fun tag => (tag, ofFields fields) := rfl

/-- A structure is read from its fields. -/
theorem fields_of_asStruct {names : List String} {optional : Nat} {f : Value → Option α}
    {v : Value} {a : α} (h : asStruct names optional f v = some a) : ∃ fields, f fields = some a :=
  (Option.bind_eq_some_iff.mp h).imp fun _ h => h.2

theorem isArray_atField (key : String) (f : Value → Value × List α) (v : Value) :
    (atField key f v).1.isArray = v.isArray := by
  cases v <;> rfl

theorem mem_of_asList {f : Value → Option α} {v : Value} {as : List α} (h : asList f v = some as)
    {a : α} (ha : a ∈ as) : ∃ w ∈ v.items, f w = some a := by
  cases v with
  | array items => exact mem_of_mapM h ha
  | _ => cases h

theorem asList_eachItem (f : Value → Option β) (g : Value → Value × List α) (v : Value) :
    asList f (eachItem g v).1 = asList (fun w => f (g w).1) v := by
  cases v with
  | array items => exact List.mapM_map
  | _ => rfl

theorem asList_eq_map {f f' : Value → Option α} {g : α → α} {v : Value}
    (h : ∀ w ∈ v.items, f' w = (f w).map g) : asList f' v = (asList f v).map (List.map g) := by
  cases v with
  | array items => exact mapM_eq_map h
  | _ => rfl

theorem mapM_perm {f : α → Option β} {l l' : List α} (h : l.Perm l') {bs : List β}
    (hl : l.mapM f = some bs) : ∃ bs', l'.mapM f = some bs' ∧ bs.Perm bs' := by
  induction h generalizing bs with
  | nil => exact ⟨bs, hl, .refl _⟩
  | cons a _ ih =>
    obtain ⟨b, rest, hfirst, hrest, rfl⟩ := mapM_cons_eq_some.mp hl
    obtain ⟨rest', hrest', hperm⟩ := ih hrest
    exact ⟨b :: rest', mapM_cons_eq_some.mpr ⟨b, rest', hfirst, hrest', rfl⟩, hperm.cons b⟩
  | swap a a' l =>
    obtain ⟨b, rest, hfirst, htail, rfl⟩ := mapM_cons_eq_some.mp hl
    obtain ⟨b', rest', hsecond, hrest, rfl⟩ := mapM_cons_eq_some.mp htail
    refine ⟨b' :: b :: rest', mapM_cons_eq_some.mpr ⟨b', _, hsecond, ?_, rfl⟩, .swap b' b rest'⟩
    exact mapM_cons_eq_some.mpr ⟨b, rest', hfirst, hrest, rfl⟩
  | trans _ _ ih ih' =>
    obtain ⟨mid, hmid, hperm⟩ := ih hl
    obtain ⟨bs', hbs', hperm'⟩ := ih' hmid
    exact ⟨bs', hbs', hperm.trans hperm'⟩

/-- A map whose keys and values are read back is read back. -/
theorem keyed_ofFields {κ : Type} [LinearOrder κ] {key : String → Option κ} {name : κ → String}
    {f : Value → Option α} {g : α → Value} {m : OrdMap κ α} (hkey : ∀ k, key (name k) = some k)
    (hvalue : ∀ e ∈ m.entries, f (g e.2) = some e.2) :
    keyed key f (ofFields (m.entries.map fun e => (name e.1, g e.2))) = some m := by
  have hname : Function.Injective name := fun k k' heq =>
    Option.some_inj.mp ((hkey k).symm.trans (heq ▸ hkey k'))
  have hnodup : ((m.entries.map fun e => (name e.1, g e.2)).map Prod.fst).Nodup := by
    have hkeys := m.keys_nodup.map hname
    rw [OrdMap.keys, List.map_map] at hkeys
    rwa [List.map_map]
  have hread : (m.entries.map fun e => (name e.1, g e.2)).mapM
      (fun e => (key e.1).bind fun k => (f e.2).map fun a => (k, a)) = some m.entries := by
    refine mapM_eq_some_of_forall fun e he => ?_
    rw [hkey, hvalue e he]
    rfl
  -- the fields of the object are the same in another order
  obtain ⟨l, hl, hperm⟩ := mapM_perm (OrdMap.entries_ofList_perm hnodup).symm hread
  rw [ofFields, keyed, hl, Option.map_some, OrdMap.ofList_of_perm hperm.symm]

/-- A map that is read from changed values is the map with changed values. -/
theorem keyed_eachField {κ : Type} [LinearOrder κ] {key : String → Option κ}
    {read : Value → Option β} {f f' : Value → Value × List α} {g : β → β} {v : Value}
    (h : ∀ w ∈ v.values, read (f' w).1 = (read (f w).1).map g) :
    keyed key read (eachField f' v).1 = (keyed key read (eachField f v).1).map (·.mapValues g) := by
  cases v with
  | object fields =>
    have hfields : (fields.map fun e => (e.1, (f' e.2).1)).mapM
        (fun e => (key e.1).bind fun k => (read e.2).map fun a => (k, a)) =
        ((fields.map fun e => (e.1, (f e.2).1)).mapM
          fun e => (key e.1).bind fun k => (read e.2).map fun a => (k, a)).map
            (List.map fun e => (e.1, g e.2)) := by
      rw [List.mapM_map, List.mapM_map]
      refine mapM_eq_map fun e he => ?_
      have hread := h e.2 (List.mem_map_of_mem he)
      cases hkey : key e.1 with
      | none => simp [hkey]
      | some k => simp [hkey, hread, Function.comp_def]
    rw [eachField, eachField, keyed, keyed, hfields, Option.map_map, Option.map_map]
    exact congrArg (fun h => Option.map h _) (funext fun l => OrdMap.ofList_mapValues l g)
  | _ => rfl

/-- What a map holds was read from a field. -/
theorem mem_of_keyed {κ : Type} [LinearOrder κ] {key : String → Option κ} {f : Value → Option α}
    {v : Value} {m : OrdMap κ α} (h : keyed key f v = some m) {e : κ × α} (he : e ∈ m.entries) :
    ∃ w ∈ v.values, f w = some e.2 := by
  cases v with
  | object fields =>
    obtain ⟨l, hl, rfl⟩ := Option.map_eq_some_iff.mp h
    obtain ⟨x, hmem, hx⟩ := mem_of_mapM hl (OrdMap.mem_of_mem_ofList he)
    obtain ⟨k, -, hk⟩ := Option.bind_eq_some_iff.mp hx
    obtain ⟨a, ha, rfl⟩ := Option.map_eq_some_iff.mp hk
    exact ⟨x.2, List.mem_map_of_mem hmem, ha⟩
  | _ => cases h

end JsonLemmas

end Json
