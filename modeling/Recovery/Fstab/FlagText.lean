import Recovery.Fstab.Flags

/-!
# Options of an fstab line, item by item (`partition.cpp`)

* `Plain`, `OptionsParsed` — mount options, and what is made of them.
* `processFSFlags_parsed` — each item is ignored, a mount flag, or kept.
* `meaning` — the flag of TWRP that an item is for, and its argument.
* `matchFlag_found` — the search in the table finds it, unless an `=` is doubled.
* `splitOutside` — the parts of a text between separators outside quotes.
* `splitOnP_mask` — they are the tokens; `splitOutside_inside` — no separator inside quotes splits.
* `options_parsed` — all of it; `other_items` — where names do not decide.
-/

set_option autoImplicit false

namespace Recovery.Fstab

open Recovery.Lib

/-! ## Mount options -/

/-- The name is that of an ignored option. -/
def Ignored (item : Str) : Prop :=
  ∃ ignored ∈ ignoredMountItems, itemName item = itemName ignored

/-- The item is a mount flag. -/
def IsMountFlag (item : Str) : Prop := ∃ flag, (item, flag) ∈ mountFlags

instance (item : Str) : Decidable (Ignored item) := by
  unfold Ignored
  infer_instance

instance (item : Str) : Decidable (IsMountFlag item) :=
  decidable_of_iff (∃ e ∈ mountFlags, e.1 = item) (by simp [IsMountFlag])

/-- The name is not just the beginning of that of an ignored option. -/
def Plain (item : Str) : Prop :=
  ∀ ignored ∈ ignoredMountItems, itemName item <+: ignored → itemName item = itemName ignored

instance (item : Str) : Decidable (Plain item) := by
  unfold Plain
  infer_instance

theorem itemName_leads (item : Str) : itemName item <+: item := List.takeWhile_prefix _

theorem strncmp_itemName (item ignored : Str) :
    strncmp item ignored (itemName item).length = true ↔ itemName item <+: ignored := by
  rw [strncmp, beq_iff_eq, ← List.prefix_iff_eq_take.1 (itemName_leads item),
    List.prefix_iff_eq_take]

/-- What the items were made of. -/
structure OptionsParsed (p : TWPartition) (items : List Str) (p' : TWPartition) : Prop where
  options : p'.mountOptions =
    [comma].intercalate (items.filter fun item => ¬ Ignored item ∧ ¬ IsMountFlag item)
  flags : ∀ bit, p'.mountFlags.testBit bit = true ↔ p.mountFlags.testBit bit = true ∨
    ∃ item ∈ items, ∃ flag, (item, flag) ∈ mountFlags ∧ flag ≠ MS_RDONLY ∧ flag.testBit bit = true
  readOnly : p'.mountReadOnly = true ↔ p.mountReadOnly = true ∨ text "ro" ∈ items
  others : p' =
    { p with
      mountOptions := p'.mountOptions
      mountFlags := p'.mountFlags
      mountReadOnly := p'.mountReadOnly }

theorem intercalate_ne_nil {items : List Str} (hitems : ∀ item ∈ items, item ≠ [])
    (hne : items ≠ []) : [comma].intercalate items ≠ [] := by
  obtain ⟨item, items, rfl⟩ := List.exists_cons_of_ne_nil hne
  have hitem := hitems item List.mem_cons_self
  cases items with
  | nil => simpa using hitem
  | cons next items => simp [List.intercalate_cons_cons, hitem]

theorem intercalate_concat {items : List Str} (hitems : ∀ item ∈ items, item ≠ []) (item : Str) :
    [comma].intercalate (items ++ [item]) =
      (if [comma].intercalate items ≠ [] then [comma].intercalate items ++ [comma]
        else [comma].intercalate items) ++ item := by
  induction items with
  | nil => simp
  | cons first items ih =>
    rw [if_pos (intercalate_ne_nil hitems (List.cons_ne_nil _ _)), List.cons_append,
      List.intercalate_cons_of_ne_nil (by simp), ih fun item h => hitems item (.tail _ h)]
    cases items with
    | nil => simp
    | cons second items =>
      rw [if_pos (intercalate_ne_nil (fun item h => hitems item (.tail _ h)) (List.cons_ne_nil _ _)),
        List.intercalate_cons_cons]
      simp only [List.append_assoc]

theorem mountFlags_names : ∀ e ∈ mountFlags, equals ∉ e.1 ∧ ¬ Ignored e.1 := by
  decide

/-- The table has one entry for a name. -/
theorem mountFlags_find {item : Str} {flag : Nat} (h : (item, flag) ∈ mountFlags) :
    mountFlags.find? (·.1 = item) = some (item, flag) := by
  have hall : ∀ e ∈ mountFlags, mountFlags.find? (·.1 = e.1) = some e := by decide
  exact hall _ h

/-- An item that is ignored. -/
theorem processMountItem_ignored {item : Str} (h : Ignored item) (p : TWPartition) :
    processMountItem p item = p := by
  obtain ⟨ignored, hmem, hname⟩ := h
  rw [processMountItem, if_pos]
  rw [List.any_eq_true]
  refine ⟨ignored, hmem, (strncmp_itemName item ignored).2 ?_⟩
  rw [hname]
  exact itemName_leads ignored

theorem not_any_of_plain {item : Str} (hplain : Plain item) (h : ¬ Ignored item) :
    ¬ (ignoredMountItems.any fun ignored =>
      strncmp item ignored (itemName item).length) = true := by
  rw [List.any_eq_true]
  rintro ⟨ignored, hmem, hleads⟩
  exact h ⟨ignored, hmem, hplain ignored hmem ((strncmp_itemName item ignored).1 hleads)⟩

/-- A mount flag. -/
theorem processMountItem_flag {item : Str} {flag : Nat} (h : (item, flag) ∈ mountFlags)
    (hplain : Plain item) (p : TWPartition) :
    processMountItem p item = if flag = MS_RDONLY then { p with mountReadOnly := true }
      else { p with mountFlags := p.mountFlags ||| flag } := by
  obtain ⟨hequals, hignored⟩ := mountFlags_names _ h
  rw [processMountItem, if_neg (not_any_of_plain hplain hignored), if_pos hequals,
    mountFlags_find h]

/-- Any other item is an option. -/
theorem processMountItem_option {item : Str} (hplain : Plain item) (hignored : ¬ Ignored item)
    (h : ¬ IsMountFlag item) (p : TWPartition) :
    processMountItem p item = addMountOption p item := by
  have hnone : (if equals ∉ item then mountFlags.find? (·.1 = item) else none) = none := by
    split
    · rw [List.find?_eq_none]
      intro e hmem heq
      exact h ⟨e.2, by rwa [← of_decide_eq_true heq]⟩
    · rfl
  rw [processMountItem, if_neg (not_any_of_plain hplain hignored), hnone]

theorem readOnly_iff {flag : Nat} {item : Str} (h : (item, flag) ∈ mountFlags) :
    flag = MS_RDONLY ↔ text "ro" = item := by
  have hall : ∀ e ∈ mountFlags, e.2 = MS_RDONLY ↔ text "ro" = e.1 := by decide
  exact hall _ h

theorem setsBit_concat (items : List Str) (item : Str) (bit : Nat) :
    (∃ other ∈ items ++ [item], ∃ flag,
      (other, flag) ∈ mountFlags ∧ flag ≠ MS_RDONLY ∧ flag.testBit bit = true) ↔
        (∃ other ∈ items, ∃ flag,
          (other, flag) ∈ mountFlags ∧ flag ≠ MS_RDONLY ∧ flag.testBit bit = true) ∨
        ∃ flag, (item, flag) ∈ mountFlags ∧ flag ≠ MS_RDONLY ∧ flag.testBit bit = true := by
  simp only [List.mem_append, List.mem_singleton, or_and_right, exists_or, exists_eq_left]

/-- Ignored items and mount flags are no options. -/
theorem options_skip (items : List Str) {item : Str} (hitem : Ignored item ∨ IsMountFlag item) :
    (items ++ [item]).filter (fun item => ¬ Ignored item ∧ ¬ IsMountFlag item) =
      items.filter fun item => ¬ Ignored item ∧ ¬ IsMountFlag item := by
  have hnot : ¬ (¬ Ignored item ∧ ¬ IsMountFlag item) := by tauto
  rw [List.filter_append, List.filter_cons_of_neg (by simpa using hnot), List.filter_nil,
    List.append_nil]

theorem ro_concat (items : List Str) (item : Str) :
    text "ro" ∈ items ++ [item] ↔ text "ro" ∈ items ∨ text "ro" = item := by
  simp

section Concat

variable {p p' : TWPartition} {items : List Str} {item : Str} (h : OptionsParsed p items p')
include h

theorem OptionsParsed.concat_flag (hplain : Plain item) {flag : Nat}
    (hmem : (item, flag) ∈ mountFlags) :
    OptionsParsed p (items ++ [item]) (processMountItem p' item) := by
  have hoptions := options_skip items (.inr ⟨flag, hmem⟩)
  have hunique : ∀ other, (item, other) ∈ mountFlags → other = flag := by
    intro other hother
    cases (mountFlags_find hmem).symm.trans (mountFlags_find hother)
    rfl
  rw [processMountItem_flag hmem hplain]
  by_cases hreadOnly : flag = MS_RDONLY
  · rw [if_pos hreadOnly]
    refine ⟨?_, fun bit => ?_, ?_, ?_⟩
    · rw [hoptions]
      exact h.options
    · have hnone : ¬ ∃ flag, (item, flag) ∈ mountFlags ∧ flag ≠ MS_RDONLY ∧
          flag.testBit bit = true := by
        rintro ⟨other, hother, hne, -⟩
        exact hne ((hunique other hother).trans hreadOnly)
      rw [setsBit_concat, or_iff_left hnone]
      exact h.flags bit
    · simp [(readOnly_iff hmem).1 hreadOnly]
    · exact congrArg (fun q => { q with mountReadOnly := true }) h.others
  · rw [if_neg hreadOnly]
    refine ⟨?_, fun bit => ?_, ?_, ?_⟩
    · rw [hoptions]
      exact h.options
    · have hone : (∃ flag, (item, flag) ∈ mountFlags ∧ flag ≠ MS_RDONLY ∧
          flag.testBit bit = true) ↔ flag.testBit bit = true := by
        constructor
        · rintro ⟨other, hother, -, hset⟩
          rwa [← hunique other hother]
        · exact fun hset => ⟨flag, hmem, hreadOnly, hset⟩
      rw [setsBit_concat, hone, ← or_assoc, ← h.flags bit]
      simp
    · rw [ro_concat, or_iff_left (fun heq => hreadOnly ((readOnly_iff hmem).2 heq))]
      exact h.readOnly
    · exact congrArg (fun q => { q with mountFlags := p'.mountFlags ||| flag }) h.others

/-- An item that is no mount flag, with what becomes of the options. -/
theorem OptionsParsed.concat_other (hflag : ¬ IsMountFlag item) {options : Str}
    (hoptions : options = [comma].intercalate
      ((items ++ [item]).filter fun item => ¬ Ignored item ∧ ¬ IsMountFlag item)) :
    OptionsParsed p (items ++ [item]) { p' with mountOptions := options } := by
  refine ⟨hoptions, fun bit => ?_, ?_, ?_⟩
  · have hnone : ¬ ∃ flag, (item, flag) ∈ mountFlags ∧ flag ≠ MS_RDONLY ∧
        flag.testBit bit = true := by
      rintro ⟨flag, hmem, -⟩
      exact hflag ⟨flag, hmem⟩
    rw [setsBit_concat, or_iff_left hnone]
    exact h.flags bit
  · have hnotRo : text "ro" ≠ item := by
      rintro rfl
      exact hflag ⟨MS_RDONLY, by decide⟩
    rw [ro_concat, or_iff_left hnotRo]
    exact h.readOnly
  · exact congrArg (fun q => { q with mountOptions := options }) h.others

/-- One more item. -/
theorem OptionsParsed.concat (hitems : ∀ item ∈ items, item ≠ []) (hplain : Plain item) :
    OptionsParsed p (items ++ [item]) (processMountItem p' item) := by
  by_cases hflag : IsMountFlag item
  · obtain ⟨flag, hmem⟩ := hflag
    exact h.concat_flag hplain hmem
  · by_cases hignored : Ignored item
    · rw [processMountItem_ignored hignored]
      have hoptions := h.options
      rw [← options_skip items (.inl hignored)] at hoptions
      exact h.concat_other hflag hoptions
    · rw [processMountItem_option hplain hignored hflag]
      apply h.concat_other hflag
      have hkept : ∀ item ∈ items.filter (fun item => ¬ Ignored item ∧ ¬ IsMountFlag item),
          item ≠ [] := fun item hitem => hitems item (List.mem_of_mem_filter hitem)
      rw [List.filter_append, List.filter_cons_of_pos (by simp [hignored, hflag]), List.filter_nil,
        intercalate_concat hkept, ← h.options]

end Concat

/-- **Mount options**: items are ignored, set flags, or are kept. -/
theorem processFSFlags_parsed (p : TWPartition) {options : Str}
    (hplain : ∀ item ∈ mountItems options, Plain item) :
    OptionsParsed p (mountItems options) (processFSFlags p options) := by
  have hne : ∀ item ∈ mountItems options, item ≠ [] := by
    intro item hitem
    simpa using List.of_mem_filter hitem
  rw [processFSFlags]
  generalize mountItems options = items at hplain hne
  induction items using List.reverseRecOn with
  | nil => exact ⟨rfl, by simp, by simp, rfl⟩
  | append_singleton items item ih =>
    rw [List.foldl_append]
    have hitems := ih (fun item h => hplain item (List.mem_append_left _ h))
      (fun item h => hne item (List.mem_append_left _ h))
    exact hitems.concat (fun item h => hne item (List.mem_append_left _ h))
      (hplain item (List.mem_append_right _ List.mem_cons_self))

/-! ## The flags of an item -/

/-- What is behind the first `=`. -/
def argument (item : Str) : Str := (item.dropWhile (· ≠ equals)).drop 1

/-- The name of a flag ends in `=` if it cannot be without an argument. -/
def needsArgument (name : Str) : Prop := name.getLast? = some equals

instance (name : Str) : Decidable (needsArgument name) := inferInstanceAs (Decidable (_ = _))

/-- The flag with the name of the item, if there is an argument where it needs one. -/
def known (item : Str) : Option (Str × TWFlag) :=
  twFlags.find? fun e => itemName item = itemName e.1 ∧ (needsArgument e.1 → equals ∈ item)

/-- What an item says: a flag, its argument without the quotes, and whether the flag is set. -/
def meaning (item : Str) : Option (TWFlag × Str × Bool) :=
  match known item with
  | some (name, flag) =>
    if equals ∈ item then
      let arg := stripQuotes (argument item)
      if arg = [] then none else some (flag, arg, !decide (needsArgument name) && isYes arg)
    else some (flag, [], true)
  | none => none

/-- The argument of a flag that needs one does not begin with another `=`, and there is a device
if there is to be one. -/
structure Clean (item : Str) : Prop where
  single : ∀ e ∈ twFlags, needsArgument e.1 → itemName item = itemName e.1 →
    (argument item).head? ≠ some equals
  device : item ≠ text "altdevice"

theorem ne_equals {name : Str} (h : equals ∉ name) : ∀ c ∈ name, decide (c ≠ equals) = true :=
  fun _ hc => decide_eq_true (ne_of_mem_of_not_mem hc h)

theorem itemName_of_not_mem {item : Str} (h : equals ∉ item) : itemName item = item :=
  List.takeWhile_eq_self_iff.2 (ne_equals h)

theorem itemName_append {name rest : Str} (h : equals ∉ name) :
    itemName (name ++ equals :: rest) = name := by
  rw [itemName, List.takeWhile_append_of_pos (ne_equals h), List.takeWhile_cons_of_neg (by simp),
    List.append_nil]

theorem argument_append {name rest : Str} (h : equals ∉ name) :
    argument (name ++ equals :: rest) = rest := by
  rw [argument, List.dropWhile_append_of_pos (ne_equals h), List.dropWhile_cons_of_neg (by simp)]
  rfl

/-- The name, and the argument. -/
theorem eq_itemName_append {item : Str} (h : equals ∈ item) :
    item = itemName item ++ equals :: argument item := by
  have hsplit : itemName item ++ item.dropWhile (· ≠ equals) = item :=
    List.takeWhile_append_dropWhile
  cases hrest : item.dropWhile (· ≠ equals) with
  | nil =>
    rw [hrest, List.append_nil] at hsplit
    rw [← hsplit] at h
    simpa using List.mem_takeWhile_imp h
  | cons c rest =>
    have hc : c = equals := by simpa using dropWhile_eq_cons hrest
    rw [argument, hrest, List.drop_one, List.tail_cons, ← hc, ← hrest]
    exact hsplit.symm

theorem strncmp_name (item name : Str) : strncmp item name name.length = true ↔ name <+: item := by
  rw [strncmp, beq_iff_eq, List.take_length, List.prefix_iff_eq_take]
  exact eq_comm

/-- A flag that may be without an argument. -/
theorem matchFlag_dual {name : Str} (hne : name ≠ []) (hname : equals ∉ name) (flag : TWFlag)
    (table : List (Str × TWFlag)) (item : Str) :
    matchFlag item ((name, flag) :: table) =
      if itemName item = name then
        if equals ∈ item then
          if stripQuotes (argument item) = [] then .skipped
          else .applied flag (stripQuotes (argument item)) (isYes (stripQuotes (argument item)))
        else .applied flag item true
      else matchFlag item table := by
  have hlast : name.getLast? ≠ some equals := fun h => hname (List.mem_of_getLast? h)
  rw [matchFlag]
  by_cases hleads : name <+: item
  · rw [if_pos ((strncmp_name item name).2 hleads)]
    obtain ⟨rest, rfl⟩ := hleads
    cases rest with
    | nil => simp [itemName_of_not_mem hname, hname, hlast]
    | cons c rest =>
      by_cases hc : c = equals
      · subst hc
        simp [itemName_append hname, argument_append hname]
      · have hother : itemName (name ++ c :: rest) ≠ name := by
          intro heq
          rw [itemName, List.takeWhile_append_of_pos (ne_equals hname),
            List.takeWhile_cons_of_pos (by simpa using hc)] at heq
          simp at heq
        simp [hother, hlast, hc]
  · have hother : itemName item ≠ name := by
      rintro rfl
      exact hleads (itemName_leads item)
    rw [if_neg (fun h => hleads ((strncmp_name item name).1 h)), if_neg hother]

/-- A flag that needs one. -/
theorem matchFlag_needs {name : Str} (hname : equals ∉ name) (flag : TWFlag)
    (table : List (Str × TWFlag)) {item : Str}
    (hsingle : itemName item = name → (argument item).head? ≠ some equals) :
    matchFlag item ((name ++ [equals], flag) :: table) =
      if itemName item = name ∧ equals ∈ item then
        if stripQuotes (argument item) = [] then .skipped
        else .applied flag (stripQuotes (argument item)) false
      else matchFlag item table := by
  rw [matchFlag]
  by_cases hleads : name ++ [equals] <+: item
  · rw [if_pos ((strncmp_name item _).2 hleads)]
    obtain ⟨rest, rfl⟩ := hleads
    rw [List.append_assoc, List.singleton_append] at hsingle ⊢
    rw [itemName_append hname, argument_append hname] at hsingle ⊢
    cases rest with
    | nil => simp [stripQuotes]
    | cons c rest =>
      have hc : c ≠ equals := by simpa using hsingle rfl
      simp [hc]
  · have hother : ¬ (itemName item = name ∧ equals ∈ item) := by
      rintro ⟨rfl, hmem⟩
      apply hleads
      refine ⟨argument item, ?_⟩
      rw [List.append_assoc]
      exact (eq_itemName_append hmem).symm
    rw [if_neg (fun h => hleads ((strncmp_name item _).1 h)), if_neg hother]

/-- A name of the table: some characters, and perhaps an `=`. -/
structure TableName (name : Str) : Prop where
  ne : itemName name ≠ []
  shape : name = itemName name ++ if needsArgument name then [equals] else []

instance (name : Str) : Decidable (TableName name) :=
  decidable_of_iff (_ ∧ _) ⟨fun h => ⟨h.1, h.2⟩, fun h => ⟨h.1, h.2⟩⟩

theorem equals_not_mem_itemName (name : Str) : equals ∉ itemName name :=
  fun h => by simpa using List.mem_takeWhile_imp h

/-- What is found in a table, with the item itself where there is no argument. -/
def found (item : Str) : Option (Str × TWFlag) → Handled
  | some (name, flag) =>
    if equals ∈ item then
      if stripQuotes (argument item) = [] then .skipped
      else .applied flag (stripQuotes (argument item))
        (!decide (needsArgument name) && isYes (stripQuotes (argument item)))
    else .applied flag item true
  | none => .unhandled

/-- **The search in the table** ends at the name of the item. -/
theorem matchFlag_found {item : Str} {table : List (Str × TWFlag)}
    (htable : ∀ e ∈ table, TableName e.1)
    (hsingle : ∀ e ∈ table, needsArgument e.1 → itemName item = itemName e.1 →
      (argument item).head? ≠ some equals) :
    matchFlag item table = found item
      (table.find? fun e => itemName item = itemName e.1 ∧ (needsArgument e.1 → equals ∈ item)) := by
  induction table with
  | nil => rfl
  | cons e table ih =>
    obtain ⟨name, flag⟩ := e
    obtain ⟨hname, htable⟩ := List.forall_mem_cons.1 htable
    obtain ⟨hhead, hsingle⟩ := List.forall_mem_cons.1 hsingle
    dsimp only at hname hhead
    have hrest := ih htable hsingle
    have hequals := equals_not_mem_itemName name
    by_cases hneeds : needsArgument name
    · have hshape : name = itemName name ++ [equals] :=
        hname.shape.trans (by rw [if_pos hneeds])
      by_cases hitem : itemName item = itemName name ∧ equals ∈ item
      · rw [List.find?_cons_of_pos (by simp [hitem])]
        conv_lhs => rw [hshape]
        rw [matchFlag_needs hequals flag table (hhead hneeds), if_pos hitem]
        simp [found, hitem.2, hneeds]
      · rw [List.find?_cons_of_neg (by simpa [hneeds] using hitem)]
        conv_lhs => rw [hshape]
        rw [matchFlag_needs hequals flag table (hhead hneeds), if_neg hitem]
        exact hrest
    · have hshape : name = itemName name :=
        hname.shape.trans (by rw [if_neg hneeds, List.append_nil])
      by_cases hitem : itemName item = itemName name
      · rw [List.find?_cons_of_pos (by simp [hitem, hneeds])]
        conv_lhs => rw [hshape]
        rw [matchFlag_dual hname.ne hequals, if_pos hitem]
        simp [found, hneeds]
      · rw [List.find?_cons_of_neg (by simp [hitem])]
        conv_lhs => rw [hshape]
        rw [matchFlag_dual hname.ne hequals, if_neg hitem]
        exact hrest

/-- Flags that are used with an argument. -/
def TWFlag.hasText : TWFlag → Bool
  | .backupname | .blocksize | .display | .encryptable | .fileencryption | .forceencrypt
  | .fsflags | .length | .storagename | .subpartitionof | .symlink | .altdevice
  | .keydirectory => true
  | _ => false

theorem applyTWFlag_str {flag : TWFlag} (h : flag.hasText = false) (p : TWPartition) (str : Str)
    (val : Bool) : applyTWFlag p flag str val = applyTWFlag p flag [] val := by
  cases flag <;> first | rfl | contradiction

theorem twFlags_names : ∀ e ∈ twFlags, TableName e.1 := by decide

theorem twFlags_text : ∀ e ∈ twFlags, ¬ needsArgument e.1 →
    e.2.hasText = false ∨ e.1 = text "altdevice" := by
  decide

/-- **An item** does what it says. -/
theorem processItem_meaning {item : Str} (h : Clean item) (p : TWPartition) :
    processItem p item = match meaning item with
      | some (flag, str, val) => applyTWFlag p flag str val
      | none => p := by
  rw [processItem, matchFlag_found twFlags_names h.single, meaning, known]
  cases hfind : twFlags.find? fun e =>
      itemName item = itemName e.1 ∧ (needsArgument e.1 → equals ∈ item) with
  | none => rfl
  | some e =>
    obtain ⟨name, flag⟩ := e
    have hname : itemName item = itemName name ∧ (needsArgument name → equals ∈ item) := by
      simpa only [decide_eq_true_eq] using List.find?_some hfind
    have hmem := List.mem_of_find?_eq_some hfind
    dsimp only [found]
    by_cases hequals : equals ∈ item
    · rw [if_pos hequals, if_pos hequals]
      by_cases harg : stripQuotes (argument item) = []
      · rw [if_pos harg, if_pos harg]
      · rw [if_neg harg, if_neg harg]
    · rw [if_neg hequals, if_neg hequals]
      dsimp only
      have hneeds : ¬ needsArgument name := fun hneeds => hequals (hname.2 hneeds)
      rcases twFlags_text _ hmem hneeds with htext | hdevice
      · exact applyTWFlag_str htext p item true
      · exfalso
        apply h.device
        have hshape := (twFlags_names _ hmem).shape
        rw [if_neg hneeds, List.append_nil] at hshape
        rw [← itemName_of_not_mem hequals, hname.1, ← hshape]
        exact hdevice

instance (item : Str) : Decidable (Clean item) :=
  decidable_of_iff ((∀ e ∈ twFlags, needsArgument e.1 → itemName item = itemName e.1 →
    (argument item).head? ≠ some equals) ∧ item ≠ text "altdevice")
    ⟨fun h => ⟨h.1, h.2⟩, fun h => ⟨h.1, h.2⟩⟩

/-! ## The items of a text -/

/-- The parts between separators outside quotes, or newlines. -/
def splitOutside (separator : UInt8) : Bool → Str → List Str
  | _, [] => [[]]
  | quoted, c :: flags =>
    let quoted := if c = quote then !quoted else quoted
    if (c = separator ∧ quoted = false) ∨ c = newline then
      [] :: splitOutside separator quoted flags
    else (splitOutside separator quoted flags).modifyHead (c :: ·)

/-- The items of a text. -/
def twItems (flags : Str) (fstabVer : Int) : List Str :=
  (splitOutside (sourceSeparator fstabVer) false flags).filter (· ≠ [])

/-- **The masked text** is cut there. -/
theorem splitOnP_mask (separator : UInt8) (quoted : Bool) (flags : Str) :
    (maskSeparators separator quoted flags).splitOnP (· = newline) =
      splitOutside separator quoted flags := by
  induction flags generalizing quoted with
  | nil => rfl
  | cons c flags ih =>
    rw [maskSeparators, splitOutside, List.splitOnP_cons_eq_if_modifyHead, ih]
    generalize (if c = quote then !quoted else quoted) = quoted
    by_cases hcut : c = separator ∧ quoted = false
    · have hmask : (!quoted && c == separator) = true := by simp [hcut]
      rw [if_pos (Or.inl hcut), hmask, if_pos (by simp)]
    · have hmask : (!quoted && c == separator) = false := by
        cases quoted <;> simp_all
      rw [hmask]
      simp [hcut]

theorem words_mask (flags : Str) (fstabVer : Int) :
    words (· = newline) (maskSeparators (sourceSeparator fstabVer) false flags) =
      twItems flags fstabVer := by
  rw [words, splitOnP_mask, twItems]

/-- Whether a text ends inside quotes. -/
def endsQuoted (quoted : Bool) (flags : Str) : Bool :=
  flags.foldl (fun quoted c => if c = quote then !quoted else quoted) quoted

/-- The last part of a text goes on with what follows. -/
theorem splitOutside_append (separator : UInt8) (quoted : Bool) (flags : Str) :
    ∃ parts last, splitOutside separator quoted flags = parts ++ [last] ∧
      ∀ rest, splitOutside separator quoted (flags ++ rest) =
        parts ++ (splitOutside separator (endsQuoted quoted flags) rest).modifyHead (last ++ ·) := by
  induction flags generalizing quoted with
  | nil =>
    refine ⟨[], [], rfl, fun rest => ?_⟩
    rw [List.nil_append, List.nil_append]
    exact (congrFun List.modifyHead_id _).symm
  | cons c flags ih =>
    obtain ⟨parts, last, hparts, happend⟩ := ih (if c = quote then !quoted else quoted)
    by_cases hcut : (c = separator ∧ (if c = quote then !quoted else quoted) = false) ∨ c = newline
    · refine ⟨[] :: parts, last, ?_, fun rest => ?_⟩
      · rw [splitOutside, if_pos hcut, hparts]
        rfl
      · rw [List.cons_append, splitOutside, if_pos hcut, happend]
        rfl
    · cases parts with
      | nil =>
        refine ⟨[], c :: last, ?_, fun rest => ?_⟩
        · rw [splitOutside, if_neg hcut, hparts]
          rfl
        · rw [List.cons_append, splitOutside, if_neg hcut, happend]
          exact List.modifyHead_modifyHead
      | cons part parts =>
        refine ⟨(c :: part) :: parts, last, ?_, fun rest => ?_⟩
        · rw [splitOutside, if_neg hcut, hparts]
          rfl
        · rw [List.cons_append, splitOutside, if_neg hcut, happend]
          rfl

/-- **A separator inside quotes** is in a part, between the last one before and the first one behind
it. -/
theorem splitOutside_inside {separator : UInt8} (hquote : separator ≠ quote)
    (hnewline : separator ≠ newline) {before : Str} (h : endsQuoted false before = true)
    (after : Str) :
    ∃ parts last first more, splitOutside separator false before = parts ++ [last] ∧
      splitOutside separator true after = first :: more ∧
      splitOutside separator false (before ++ separator :: after) =
        parts ++ (last ++ separator :: first) :: more := by
  obtain ⟨parts, last, hparts, happend⟩ := splitOutside_append separator false before
  obtain ⟨parts', last', hparts', -⟩ := splitOutside_append separator true after
  obtain ⟨first, more, hafter⟩ : ∃ first more, splitOutside separator true after = first :: more := by
    rw [hparts']
    exact List.exists_cons_of_ne_nil (by simp)
  refine ⟨parts, last, first, more, hparts, hafter, ?_⟩
  rw [happend, h, splitOutside, if_neg hquote, if_neg (by simp [hnewline]), hafter]
  rfl

theorem sourceSeparator_ne (fstabVer : Int) :
    sourceSeparator fstabVer ≠ quote ∧ sourceSeparator fstabVer ≠ newline := by
  unfold sourceSeparator
  split <;> decide

/-- **Flags of TWRP**: what the items say is applied, one after the other. -/
theorem processTWFlags_meaning (p : TWPartition) {flags : Str} {fstabVer : Int}
    (hclean : ∀ item ∈ twItems flags fstabVer, Clean item) :
    processTWFlags p flags fstabVer = ((twItems flags fstabVer).filterMap meaning).foldl
      (fun p said => applyTWFlag p said.1 said.2.1 said.2.2) p := by
  rw [processTWFlags, words_mask]
  generalize twItems flags fstabVer = items at hclean
  induction items generalizing p with
  | nil => rfl
  | cons item items ih =>
    obtain ⟨hitem, hitems⟩ := List.forall_mem_cons.1 hclean
    rw [List.foldl_cons, processItem_meaning hitem, ih _ hitems]
    cases hmeaning : meaning item with
    | none => rw [List.filterMap_cons_none hmeaning]
    | some said => rw [List.filterMap_cons_some hmeaning, List.foldl_cons]

/-- **Options and flags of a line**: mount options are ignored, set flags or are kept, and flags are
applied with their arguments, whatever separators there are in quotes. -/
theorem options_parsed (p : TWPartition) (options flags : Str) (fstabVer : Int)
    (hplain : ∀ item ∈ mountItems options, Plain item)
    (hclean : ∀ item ∈ twItems flags fstabVer, Clean item) :
    OptionsParsed p (mountItems options) (processFSFlags p options) ∧
      processTWFlags p flags fstabVer = ((twItems flags fstabVer).filterMap meaning).foldl
        (fun p said => applyTWFlag p said.1 said.2.1 said.2.2) p ∧
      ∀ before after, endsQuoted false before = true →
        ∃ parts last first more,
          splitOutside (sourceSeparator fstabVer) false before = parts ++ [last] ∧
          splitOutside (sourceSeparator fstabVer) true after = first :: more ∧
          splitOutside (sourceSeparator fstabVer) false
              (before ++ sourceSeparator fstabVer :: after) =
            parts ++ (last ++ sourceSeparator fstabVer :: first) :: more :=
  ⟨processFSFlags_parsed p hplain, processTWFlags_meaning p hclean, fun _ after h =>
    splitOutside_inside (sourceSeparator_ne fstabVer).1 (sourceSeparator_ne fstabVer).2 h after⟩

/-- `display="A;B";backup=n`. -/
def quotedSemicolon : Str :=
  text "display=" ++ [quote] ++ text "A;B" ++ [quote] ++ text ";backup=n"

theorem options_parsed_example :
    (processTWFlags .new quotedSemicolon 1).displayName = text "A;B" ∧
      OptionsParsed .new (mountItems (text "ro,noatime,errors=panic,data=ordered"))
        (processFSFlags .new (text "ro,noatime,errors=panic,data=ordered")) := by
  obtain ⟨hoptions, hflags, -⟩ := options_parsed .new (text "ro,noatime,errors=panic,data=ordered")
    quotedSemicolon 1 (by decide) (by decide)
  refine ⟨?_, hoptions⟩
  rw [hflags]
  decide

/-- **Not every item is taken by its name**: a mount flag with an argument is an option, a flag
without one is left out, an option with the beginning of an ignored name is ignored, and the second
of two `=` is lost. -/
theorem other_items :
    (itemName (text "ro=1") = text "ro" ∧ (processFSFlags .new (text "ro=1")).mountReadOnly = false ∧
      (processFSFlags .new (text "ro=1")).mountOptions = text "ro=1") ∧
    (processTWFlags { TWPartition.new with displayName := text "data" } (text "display=") 1).displayName =
      text "data" ∧
    (¬ Ignored (text "default") ∧ (processFSFlags .new (text "default")).mountOptions = []) ∧
    (argument (text "display==x") = text "=x" ∧
      (processTWFlags .new (text "display==x") 1).displayName = text "x") := by
  decide

end Recovery.Fstab
