import Mathlib.Data.List.TakeWhile
import Recovery.Settings.InfoManager

/-!
# Saving and reloading the settings

* `readString_saved`, `readString_long` — what the reader makes of one saved string.
* `loadLoop_storable` — saved records whose strings the reader can take are all inserted.
* `loadLoop_clean`, `loadLoop_short` — whatever the loop inserts is short and without NUL.
* `reload_eq_iff` — a settings file gives the saved map back exactly when every name and value
  has at most 510 bytes and no NUL.

The buffer of the reader is not initialised, so the statement is over all its former contents.  A
string that is too long ends the loop, and the records behind it are lost
(`long_value_hides_rest`).
-/

set_option autoImplicit false

namespace Recovery.Settings

open Recovery.Lib

/-- A string one record can hold: its length with the NUL is below the reader's limit of 512. -/
def Storable (str : Str) : Prop := str.length ≤ 510 ∧ 0 ∉ str

instance (str : Str) : Decidable (Storable str) := inferInstanceAs (Decidable (_ ∧ _))

/-! ## One string -/

theorem fread_append (data rest : List UInt8) (eof : Bool) :
    fread data.length ⟨data ++ rest, eof⟩ = (data, ⟨rest, eof⟩) := by
  simp [fread]

theorem lengthField_eq {str : Str} (h : str.length < 2 ^ 16 - 1) :
    lengthField str = str.length + 1 := by
  unfold lengthField
  lia

theorem savedString_eq {str : Str} (h : str.length < 2 ^ 16 - 1) :
    savedString str = toLE 2 (str.length + 1) ++ (str ++ [0]) := by
  unfold savedString
  rw [lengthField_eq h, List.take_of_length_le (by simp)]

/-- The array starts with the bytes stored in it, also after the terminator is set behind them. -/
theorem bytes_store_terminate (a : CharArray) (data : List UInt8) (i : Nat)
    (hlen : data.length ≤ 513) (hi : data.length ≤ i) :
    ∃ tail, ((a.store data).terminate i).bytes = data ++ tail := by
  refine ⟨((a.bytes.drop data.length).take (513 - data.length)).set (i - data.length) 0, ?_⟩
  change ((data ++ a.bytes.drop data.length).take 513).set i 0 = _
  rw [List.take_append, List.take_of_length_le hlen, List.set_append_right _ _ hi]

/-- **Reading back a short string.** -/
theorem readString_saved (a : CharArray) {str : Str} (h : str.length ≤ 510)
    (rest : List UInt8) (eof : Bool) :
    ∃ a', readString a ⟨savedString str ++ rest, eof⟩ = some (a', ⟨rest, eof⟩) ∧
      a'.cString = str.takeWhile (· ≠ 0) := by
  have hfield : ofLE (toLE 2 (str.length + 1)) = str.length + 1 := ofLE_toLE (by lia)
  have hlen : (str ++ [0]).length = str.length + 1 := by simp
  refine ⟨(a.store (str ++ [0])).terminate (str.length + 2), ?_, ?_⟩
  · unfold readString
    rw [savedString_eq (by lia), List.append_assoc]
    have h1 := fread_append (toLE 2 (str.length + 1)) ((str ++ [0]) ++ rest) eof
    have h2 := fread_append (str ++ [0]) rest eof
    rw [length_toLE] at h1
    rw [hlen] at h2
    simp only [h1, hfield, h2, hlen, length_toLE]
    rw [if_neg (by simp), if_neg (by lia), if_neg (by simp)]
  · obtain ⟨tail, htail⟩ := bytes_store_terminate a (str ++ [0]) (str.length + 2)
      (by lia) (by lia)
    unfold CharArray.cString
    rw [htail, List.append_assoc, List.singleton_append, List.takeWhile_append]
    split
    · rename_i hall
      rw [List.takeWhile_cons_of_neg (by simp), List.append_nil]
      exact (List.takeWhile_prefix _).eq_of_length hall |>.symm
    · rfl

/-- A longer string ends the loading. -/
theorem readString_long (a : CharArray) {str : Str} (h : 510 < str.length)
    (h' : str.length < 2 ^ 16 - 1) (rest : List UInt8) (eof : Bool) :
    readString a ⟨savedString str ++ rest, eof⟩ = none := by
  have hfield : ofLE (toLE 2 (str.length + 1)) = str.length + 1 := ofLE_toLE (by lia)
  unfold readString
  rw [savedString_eq h', List.append_assoc]
  have h1 := fread_append (toLE 2 (str.length + 1)) ((str ++ [0]) ++ rest) eof
  rw [length_toLE] at h1
  simp only [h1, hfield, length_toLE]
  rw [if_neg (by simp), if_pos (by lia)]

/-- A read consumes the length field and what it announces. -/
theorem readString_rest {a a' : CharArray} {f f' : FILE} (h : readString a f = some (a', f')) :
    f'.rest.length + 2 ≤ f.rest.length := by
  unfold readString fread at h
  simp only at h
  split at h
  · cases h
  rename_i h2
  split at h
  · cases h
  split at h
  · cases h
  · obtain ⟨rfl, rfl⟩ := h
    simp only [List.length_take, List.length_drop] at h2 ⊢
    omega

/-- What is assigned from the array holds no NUL and fits the array. -/
theorem cString_clean (a : CharArray) : a.cString.length ≤ 513 ∧ 0 ∉ a.cString := by
  unfold CharArray.cString
  constructor
  · rw [← a.size]
    exact (List.takeWhile_prefix _).length_le
  · intro h
    simpa using List.mem_takeWhile_imp h

/-! ## One record -/

theorem readRecord_saved (a : CharArray) {entry : Str × Str} (h : entry.1.length ≤ 510)
    (h' : entry.2.length ≤ 510) (rest : List UInt8) (eof : Bool) :
    readRecord a ⟨savedRecord entry ++ rest, eof⟩ =
      some ((entry.1.takeWhile (· ≠ 0), entry.2.takeWhile (· ≠ 0)), ⟨rest, eof⟩) := by
  unfold readRecord savedRecord
  rw [List.append_assoc]
  obtain ⟨name, hname, hname'⟩ := readString_saved a h (savedString entry.2 ++ rest) eof
  obtain ⟨value, hvalue, hvalue'⟩ := readString_saved name h' rest eof
  simp only [hname, hvalue, Option.bind_eq_bind, Option.bind_some, hname', hvalue', Option.pure_def]

theorem readRecord_long (a : CharArray) {entry : Str × Str} (h : entry.1.length < 2 ^ 16 - 1)
    (h' : entry.2.length < 2 ^ 16 - 1) (hlong : 510 < entry.1.length ∨ 510 < entry.2.length)
    (rest : List UInt8) (eof : Bool) :
    readRecord a ⟨savedRecord entry ++ rest, eof⟩ = none := by
  unfold readRecord savedRecord
  rw [List.append_assoc]
  by_cases hname : 510 < entry.1.length
  · rw [readString_long a hname h]
    rfl
  · obtain ⟨name, hread, -⟩ :=
      readString_saved a (Nat.le_of_not_lt hname) (savedString entry.2 ++ rest) eof
    rw [hread]
    have hvalue : 510 < entry.2.length := by lia
    simp only [Option.bind_eq_bind, Option.bind_some, readString_long name hvalue h',
      Option.bind_none]

theorem readRecord_split {a : CharArray} {f f' : FILE} {entry : Str × Str}
    (h : readRecord a f = some (entry, f')) :
    ∃ name value, entry = (CharArray.cString name, CharArray.cString value) ∧
      f'.rest.length + 4 ≤ f.rest.length := by
  unfold readRecord at h
  simp only [Option.bind_eq_bind, Option.bind_eq_some_iff, Option.pure_def, Option.some.injEq,
    Prod.mk.injEq] at h
  obtain ⟨⟨name, f1⟩, hname, ⟨value, f2⟩, hvalue, rfl, rfl⟩ := h
  refine ⟨name, value, rfl, ?_⟩
  have h1 := readString_rest hname
  have h2 := readString_rest hvalue
  simp only at h2 ⊢
  lia

/-! ## The loop -/

/-- More fuel than bytes changes nothing: the loop ends by itself. -/
theorem loadLoop_fuel (junk : Nat → CharArray) : ∀ (fuel i : Nat) (f : FILE) (values : ValueMap),
    f.rest.length < fuel →
    loadLoop junk fuel i f values = loadLoop junk (f.rest.length + 1) i f values
  | 0, _, _, _, h => by lia
  | fuel + 1, i, f, values, h => by
    unfold loadLoop
    split
    · rfl
    cases hr : readRecord (junk i) f with
    | none => rfl
    | some p =>
      obtain ⟨entry, f'⟩ := p
      obtain ⟨_, _, -, hrest⟩ := readRecord_split hr
      simp only
      rw [loadLoop_fuel junk fuel _ f' _ (by lia),
        loadLoop_fuel junk f.rest.length _ f' _ (by lia)]

theorem savedRecord_length (entry : Str × Str) : 4 ≤ (savedRecord entry).length := by
  unfold savedRecord savedString
  simp only [List.length_append, length_toLE]
  lia

theorem takeWhile_ne_zero {str : Str} (h : 0 ∉ str) : str.takeWhile (· ≠ 0) = str := by
  apply List.takeWhile_eq_self_iff.2
  intro c hc
  rw [decide_eq_true_eq]
  exact fun h0 => h (h0 ▸ hc)

/-- Storable records are all inserted, in the order of the file. -/
theorem loadLoop_storable (junk : Nat → CharArray) : ∀ (entries : List (Str × Str)) (fuel i : Nat)
    (values : ValueMap), (∀ e ∈ entries, Storable e.1 ∧ Storable e.2) →
    (entries.flatMap savedRecord).length < fuel →
    loadLoop junk fuel i ⟨entries.flatMap savedRecord, false⟩ values = values.insertMany entries
  | _, 0, _, _, _, h => by lia
  | [], fuel + 1, i, values, _, _ => by
    have : readRecord (junk i) ⟨[], false⟩ = none := rfl
    unfold loadLoop
    simp only [List.flatMap_nil, this, Bool.false_eq_true, if_false]
    rw [Std.ExtTreeMap.insertMany_nil]
  | entry :: entries, fuel + 1, i, values, hall, hfuel => by
    obtain ⟨hname, hvalue⟩ := hall entry List.mem_cons_self
    have hlen := savedRecord_length entry
    rw [List.flatMap_cons, List.length_append] at hfuel
    unfold loadLoop
    simp only [List.flatMap_cons, readRecord_saved (junk i) hname.1 hvalue.1,
      takeWhile_ne_zero hname.2, takeWhile_ne_zero hvalue.2, Bool.false_eq_true, if_false]
    rw [loadLoop_storable junk entries fuel _ _ (fun e he => hall e (List.mem_cons_of_mem _ he))
      (by lia), Std.ExtTreeMap.insertMany_cons]

/-- Every entry of the map satisfies `P`. -/
def Entries (P : Str → Prop) (values : ValueMap) : Prop :=
  ∀ name value, values[name]? = some value → P name ∧ P value

theorem Entries.insert {P : Str → Prop} {values : ValueMap} (h : Entries P values)
    {name value : Str} (hname : P name) (hvalue : P value) :
    Entries P (values.insert name value) := by
  intro n v hv
  rw [Std.ExtTreeMap.getElem?_insert] at hv
  split at hv
  · rename_i heq
    rw [Std.compare_eq_iff_eq] at heq
    cases hv
    exact ⟨heq ▸ hname, hvalue⟩
  · exact h n v hv

theorem Entries.empty (P : Str → Prop) : Entries P ∅ := by
  intro name value h
  simp at h

/-- From any file, only strings without NUL that fit the array are loaded. -/
theorem loadLoop_clean (junk : Nat → CharArray) : ∀ (fuel i : Nat) (f : FILE) (values : ValueMap),
    Entries (fun s => s.length ≤ 513 ∧ 0 ∉ s) values →
    Entries (fun s => s.length ≤ 513 ∧ 0 ∉ s) (loadLoop junk fuel i f values)
  | 0, _, _, _, h => h
  | fuel + 1, i, f, values, h => by
    unfold loadLoop
    split
    · exact h
    split
    · exact h
    · rename_i hr
      obtain ⟨name, value, heq, -⟩ := readRecord_split hr
      cases heq
      apply loadLoop_clean
      exact h.insert (cString_clean name) (cString_clean value)

/-- From saved records whose length fields did not wrap, only strings of at most 510 bytes are
loaded: the first longer one ends the loop. -/
theorem loadLoop_short (junk : Nat → CharArray) : ∀ (entries : List (Str × Str)) (fuel i : Nat)
    (values : ValueMap), (∀ e ∈ entries, e.1.length ≤ 513 ∧ e.2.length ≤ 513) →
    Entries (·.length ≤ 510) values →
    Entries (·.length ≤ 510)
      (loadLoop junk fuel i ⟨entries.flatMap savedRecord, false⟩ values)
  | _, 0, _, _, _, h => h
  | [], fuel + 1, i, values, _, h => by
    have : readRecord (junk i) ⟨[], false⟩ = none := rfl
    unfold loadLoop
    simpa only [List.flatMap_nil, this, Bool.false_eq_true, if_false] using h
  | entry :: entries, fuel + 1, i, values, hall, h => by
    obtain ⟨hname, hvalue⟩ := hall entry List.mem_cons_self
    unfold loadLoop
    by_cases hshort : entry.1.length ≤ 510 ∧ entry.2.length ≤ 510
    · simp only [List.flatMap_cons, readRecord_saved (junk i) hshort.1 hshort.2,
        Bool.false_eq_true, if_false]
      apply loadLoop_short junk entries fuel
      · exact fun e he => hall e (List.mem_cons_of_mem _ he)
      · apply h.insert
        · exact (List.takeWhile_prefix _).length_le.trans hshort.1
        · exact (List.takeWhile_prefix _).length_le.trans hshort.2
    · have hread : readRecord (junk i) ⟨savedRecord entry ++ entries.flatMap savedRecord, false⟩ =
          none := readRecord_long (junk i) (by lia) (by lia) (by lia) _ _
      simpa only [List.flatMap_cons, hread, Bool.false_eq_true, if_false] using h

/-! ## The whole file -/

theorem readVersion_saved (version : Int32) (rest : List UInt8) :
    readVersion version ⟨savedVersion version ++ rest, false⟩ = some ⟨rest, false⟩ := by
  unfold readVersion savedVersion
  split
  · rfl
  · have h1 := fread_append (toLE 4 version.toBitVec.toNat) rest false
    rw [length_toLE] at h1
    have hofLE : ofLE (toLE 4 version.toBitVec.toNat) = version.toBitVec.toNat :=
      ofLE_toLE version.toBitVec.isLt
    simp only [h1, length_toLE, hofLE, BitVec.ofNat_toNat, BitVec.setWidth_eq]
    rw [if_neg (by simp), if_neg (by simp)]

theorem insertMany_toList (values : ValueMap) :
    (∅ : ValueMap).insertMany values.toList = values := by
  apply Std.ExtTreeMap.ext_getElem?
  intro name
  cases hv : values[name]? with
  | none =>
    rw [Std.ExtTreeMap.getElem?_insertMany_list_of_contains_eq_false]
    · exact Std.ExtTreeMap.getElem?_empty
    · rw [Std.ExtTreeMap.map_fst_toList_eq_keys, Std.ExtTreeMap.contains_keys,
        Std.ExtTreeMap.contains_eq_isSome_getElem?, hv, Option.isSome_none]
  | some value =>
    apply Std.ExtTreeMap.getElem?_insertMany_list_of_mem (k := name) Std.ReflCmp.compare_self
    · exact Std.ExtTreeMap.distinct_keys_toList
    · exact Std.ExtTreeMap.mem_toList_iff_getElem?_eq_some.2 hv

theorem mem_toList_of_entries {P : Str → Prop} {values : ValueMap} (h : Entries P values) :
    ∀ e ∈ values.toList, P e.1 ∧ P e.2 := by
  intro e he
  exact h e.1 e.2 (Std.ExtTreeMap.mem_toList_iff_getElem?_eq_some.1 he)

/-- After a save the fresh manager runs the loop on exactly the saved records. -/
theorem reload_saved {m : InfoManager} {d d' : Disk} (hsave : saveValues m d = (0, d'))
    (junk : Nat → CharArray) :
    (reload junk m d').mValues =
      loadLoop junk ((m.mValues.toList.flatMap savedRecord).length + 1) 0
        ⟨m.mValues.toList.flatMap savedRecord, false⟩ ∅ := by
  have hfile : d'.files m.file = some (savedBytes m) := by
    unfold saveValues at hsave
    split at hsave
    · cases hsave
    split at hsave
    · cases hsave
    · cases hsave
      exact if_pos rfl
  have hversion := readVersion_saved m.fileVersion (m.mValues.toList.flatMap savedRecord)
  simp only [reload, loadValues, InfoManager.setFileVersion, InfoManager.setFile, hfile,
    savedBytes, hversion, InfoManager.new]

/-- **Round trip.**  Whatever the uninitialised array holds, a fresh manager restores the saved
map exactly when every name and every value has at most 510 bytes and no NUL. -/
theorem reload_eq_iff {m : InfoManager} {d d' : Disk} (hsave : saveValues m d = (0, d'))
    (junk : Nat → CharArray) :
    (reload junk m d').mValues = m.mValues ↔
      ∀ name value, m.mValues[name]? = some value → Storable name ∧ Storable value := by
  rw [reload_saved hsave]
  constructor
  · intro heq
    have hclean := loadLoop_clean junk ((m.mValues.toList.flatMap savedRecord).length + 1) 0
      ⟨m.mValues.toList.flatMap savedRecord, false⟩ ∅ (Entries.empty _)
    rw [heq] at hclean
    -- no length field wrapped, so the loop stops at the first string that is too long
    have hshort := loadLoop_short junk m.mValues.toList
      ((m.mValues.toList.flatMap savedRecord).length + 1) 0 ∅
      (fun e he => ⟨(mem_toList_of_entries hclean e he).1.1, (mem_toList_of_entries hclean e he).2.1⟩)
      (Entries.empty _)
    rw [heq] at hshort
    intro name value hv
    exact ⟨⟨(hshort name value hv).1, (hclean name value hv).1.2⟩,
      ⟨(hshort name value hv).2, (hclean name value hv).2.2⟩⟩
  · intro h
    rw [loadLoop_storable junk _ _ _ _ (mem_toList_of_entries h) (Nat.lt_succ_self _),
      insertMany_toList]

/-! ## A value of 511 bytes -/

/-- Two variables, set in this order: `b` is short, the value of `a` has 511 bytes. -/
def longSettings : InfoManager :=
  (((InfoManager.new.setFile [47]).setValue [98] [49]).2.setValue [97] (.replicate 511 120)).2

def emptyDisk : Disk := ⟨fun _ => none, fun _ => true⟩

def zeroArray : CharArray := ⟨.replicate 513 0, List.length_replicate⟩

/-- The long value of `a` makes the short `b`, stored after it, unreadable. -/
theorem long_value_hides_rest :
    (saveValues longSettings emptyDisk).1 = 0 ∧
    longSettings.mValues[([98] : Str)]? = some [49] ∧
    (reload (fun _ => zeroArray) longSettings
      (saveValues longSettings emptyDisk).2).mValues[([98] : Str)]? = none := by
  decide +kernel

/-- The value of `a` is a byte shorter, and the file has a version. -/
def fullSettings : InfoManager :=
  ((((InfoManager.new.setFileVersion 2).setFile [47]).setValue [98] [49]).2.setValue [97]
    (.replicate 510 120)).2

/-- An array that has never been written. -/
def junkArray : CharArray := ⟨.replicate 513 255, List.length_replicate⟩

/-- Both settings come back. -/
theorem full_settings_reloaded : fullSettings.mValues.size = 2 ∧
    (reload (fun _ => junkArray) fullSettings (saveValues fullSettings emptyDisk).2).mValues =
      fullSettings.mValues := by
  refine ⟨by decide +kernel, ?_⟩
  apply (reload_eq_iff (d := emptyDisk) rfl (fun _ => junkArray)).2
  have hstored : Entries Storable fullSettings.mValues :=
    ((Entries.empty Storable).insert (by decide) (by decide)).insert (by decide) (by decide +kernel)
  exact hstored

end Recovery.Settings
