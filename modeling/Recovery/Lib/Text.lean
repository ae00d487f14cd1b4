import Mathlib.Data.List.DropRight
import Mathlib.Data.List.TakeWhile

/-!
# Reading text with the C library

* `isBlank`, `strip` — blanks, and a text without blanks around it.
* `chunks n` — what a loop of `fgets` with a buffer for `n` characters reads.
* `chunks_line`, `chunks_append` — a line that does not fit is cut, and lines do not mix.
* `strtok`, `words` — tokens one after the other, and all of them.
* `strip_words`, `words_eq` — the tokens of a text do not depend on the blanks around it.

`fgets` stores a terminator behind what it reads, so a buffer of `n + 1` bytes takes chunks of `n`;
the callers pass that number.
-/

set_option autoImplicit false

namespace Recovery.Lib

theorem dropWhile_eq_cons {α : Type} {p : α → Bool} {s t : List α} {a : α}
    (h : s.dropWhile p = a :: t) : p a = false := by
  have hhead := List.head_dropWhile_not p (l := s) (by rw [h]; exact List.cons_ne_nil _ _)
  simpa [h] using hhead

/-! ## Blanks -/

/-- `isspace` of a byte, in the C locale. -/
def isBlank (c : UInt8) : Bool := (9 ≤ c && c ≤ 13) || c == 32

def strip (s : List UInt8) : List UInt8 := (s.rdropWhile isBlank).dropWhile isBlank

theorem filter_dropWhile {α : Type} (p : α → Bool) (s : List α) :
    (s.dropWhile p).filter (!p ·) = s.filter (!p ·) := by
  induction s with
  | nil => rfl
  | cons c s ih =>
    rw [List.dropWhile_cons]
    split
    · rename_i hc
      rw [ih, List.filter_cons_of_neg (by simpa using hc)]
    · rfl

theorem filter_strip (s : List UInt8) : (strip s).filter (!isBlank ·) = s.filter (!isBlank ·) := by
  unfold strip List.rdropWhile
  rw [filter_dropWhile, List.filter_reverse, filter_dropWhile, ← List.filter_reverse,
    List.reverse_reverse]

/-- Blanks at the end do not matter. -/
theorem strip_append_blank {s t : List UInt8} (h : ∀ c ∈ t, isBlank c = true) :
    strip (s ++ t) = strip s := by
  unfold strip List.rdropWhile
  rw [List.reverse_append, List.dropWhile_append_of_pos (by simpa using h)]

theorem strip_cons_blank {c : UInt8} (h : isBlank c = true) (s : List UInt8) :
    strip (c :: s) = strip s := by
  by_cases hs : ∀ b ∈ s, isBlank b = true
  · have hnil : ∀ t : List UInt8, (∀ b ∈ t, isBlank b = true) → strip t = [] := by
      intro t ht
      unfold strip
      rw [List.rdropWhile_eq_nil_iff.2 ht, List.dropWhile_nil]
    rw [hnil s hs, hnil (c :: s) (by simpa [h] using hs)]
  · unfold strip List.rdropWhile
    rw [List.reverse_cons, List.dropWhile_append]
    rw [if_neg, List.reverse_append, List.reverse_singleton, List.singleton_append,
      List.dropWhile_cons_of_pos h]
    simpa using hs

/-- Anything else is not lost. -/
theorem strip_ne_strip_append {s t : List UInt8} (h : ∃ c ∈ t, isBlank c = false) :
    strip s ≠ strip (s ++ t) := by
  intro heq
  have hfilter := filter_strip s
  rw [heq, filter_strip, List.filter_append] at hfilter
  have hnone := List.filter_eq_nil_iff.1 (List.append_right_eq_self.1 hfilter)
  obtain ⟨c, hc, hspace⟩ := h
  exact absurd hspace (by simpa using hnone c hc)

/-- A text that starts with a word is not blank. -/
theorem strip_ne_nil {c : UInt8} {s : List UInt8} (hc : isBlank c = false) :
    strip (c :: s) ≠ [] := by
  intro h
  have hfilter := filter_strip (c :: s)
  rw [h, List.filter_cons_of_pos (by simp [hc])] at hfilter
  cases hfilter

/-- A text between two words. -/
theorem strip_words {v w : List UInt8} (hv : v ≠ []) (hw : w ≠ [])
    (hv' : ∀ c ∈ v, isBlank c = false) (hw' : ∀ c ∈ w, isBlank c = false) (s : List UInt8) :
    strip (v ++ s ++ w) = v ++ s ++ w := by
  obtain ⟨c, v, rfl⟩ := List.exists_cons_of_ne_nil hv
  obtain ⟨w, d, rfl⟩ := (List.eq_nil_or_concat w).resolve_left hw
  have hc := hv' c List.mem_cons_self
  have hd := hw' d (by simp)
  unfold strip
  rw [List.concat_eq_append, ← List.append_assoc, List.rdropWhile_concat_neg _ _ _ (by simp [hd]), List.cons_append,
    List.cons_append, List.cons_append, List.dropWhile_cons_of_neg (by simp [hc])]

theorem strip_word {w : List UInt8} (h : ∀ c ∈ w, isBlank c = false) : strip w = w := by
  have hall : ∀ c ∈ w.reverse, ¬isBlank c = true := by simpa using h
  have hdrop (s : List UInt8) (hs : ∀ c ∈ s, ¬isBlank c = true) : s.dropWhile isBlank = s := by
    cases s with
    | nil => rfl
    | cons c s => exact List.dropWhile_cons_of_neg (hs c List.mem_cons_self)
  unfold strip List.rdropWhile
  rw [hdrop _ hall, List.reverse_reverse, hdrop]
  simpa using h

/-! ## `fgets` -/

def newline : UInt8 := 10

/-- The loop: `room` more characters fit behind `cur`. -/
def chunksFrom (n : Nat) : Nat → List UInt8 → List UInt8 → List (List UInt8)
  | _, cur, [] => if cur = [] then [] else [cur]
  | room, cur, c :: bs =>
    if c = newline ∨ room ≤ 1 then (cur ++ [c]) :: chunksFrom n n [] bs
    else chunksFrom n (room - 1) (cur ++ [c]) bs

def chunks (n : Nat) (bs : List UInt8) : List (List UInt8) := chunksFrom n n [] bs

theorem chunks_nil (n : Nat) : chunks n [] = [] := rfl

/-- Nothing that is behind a newline is read with what is before it. -/
theorem chunks_append (n : Nat) (bs rest : List UInt8) :
    chunks n (bs ++ newline :: rest) = chunks n (bs ++ [newline]) ++ chunks n rest := by
  suffices h : ∀ (bs cur : List UInt8) (room : Nat), chunksFrom n room cur (bs ++ newline :: rest) =
      chunksFrom n room cur (bs ++ [newline]) ++ chunks n rest from h bs [] n
  intro bs
  induction bs with
  | nil =>
    intro cur room
    simp [chunksFrom, chunks]
  | cons c bs ih =>
    intro cur room
    simp only [List.cons_append, chunksFrom]
    split
    · rw [ih, List.cons_append]
    · exact ih _ _

/-- A line that fits is read whole. -/
theorem chunksFrom_line {n room : Nat} {line : List UInt8} (hline : newline ∉ line)
    (hfit : line.length < room) (cur rest : List UInt8) :
    chunksFrom n room cur (line ++ newline :: rest) =
      (cur ++ line ++ [newline]) :: chunks n rest := by
  induction line generalizing room cur with
  | nil => simp [chunksFrom, chunks]
  | cons c line ih =>
    have hc : c ≠ newline := fun h => hline (by rw [h]; exact List.mem_cons_self)
    simp only [List.length_cons] at hfit
    rw [List.cons_append, chunksFrom, if_neg (by simp [hc]; omega),
      ih (fun h => hline (List.mem_cons_of_mem _ h)) (by omega)]
    simp

/-- A line that does not fit is cut. -/
theorem chunksFrom_cut {n room : Nat} {line : List UInt8} (hline : newline ∉ line)
    (hne : line ≠ []) (hcut : line.length = room) (cur rest : List UInt8) :
    chunksFrom n room cur (line ++ rest) = (cur ++ line) :: chunks n rest := by
  induction line generalizing room cur with
  | nil => exact absurd rfl hne
  | cons c line ih =>
    have hc : c ≠ newline := fun h => hline (by rw [h]; exact List.mem_cons_self)
    simp only [List.length_cons] at hcut
    rw [List.cons_append, chunksFrom]
    by_cases hnil : line = []
    · subst hnil
      simp only [List.length_nil] at hcut
      rw [if_pos (Or.inr (by lia))]
      rfl
    · have hpos := List.length_pos_of_ne_nil hnil
      rw [if_neg (by simp [hc]; lia),
        ih (fun h => hline (List.mem_cons_of_mem _ h)) hnil (by lia)]
      simp

/-- A chunk holds nothing else than the text. -/
theorem mem_chunks {n : Nat} {bs chunk : List UInt8} (h : chunk ∈ chunks n bs) :
    ∀ c ∈ chunk, c ∈ bs := by
  suffices haux : ∀ (bs cur : List UInt8) (room : Nat), chunk ∈ chunksFrom n room cur bs →
      ∀ c ∈ chunk, c ∈ cur ∨ c ∈ bs by
    intro c hc
    rcases haux bs [] n h c hc with hmem | hmem
    · cases hmem
    · exact hmem
  intro bs
  induction bs with
  | nil =>
    intro cur room hchunk c hc
    unfold chunksFrom at hchunk
    split at hchunk
    · cases hchunk
    · rw [List.mem_singleton.1 hchunk] at hc
      exact Or.inl hc
  | cons b bs ih =>
    intro cur room hchunk c hc
    unfold chunksFrom at hchunk
    split at hchunk
    · rcases List.mem_cons.1 hchunk with rfl | hchunk
      · rcases List.mem_append.1 hc with hc | hc
        · exact Or.inl hc
        · exact Or.inr (by simp [List.mem_singleton.1 hc])
      · rcases ih [] n hchunk c hc with hmem | hmem
        · cases hmem
        · exact Or.inr (List.mem_cons_of_mem _ hmem)
    · rcases ih _ _ hchunk c hc with hmem | hmem
      · rcases List.mem_append.1 hmem with hmem | hmem
        · exact Or.inl hmem
        · exact Or.inr (by simp [List.mem_singleton.1 hmem])
      · exact Or.inr (List.mem_cons_of_mem _ hmem)

/-- The last line, which no newline ends. -/
theorem chunksFrom_last {n room : Nat} {line : List UInt8} (hline : newline ∉ line)
    (hne : line ≠ []) (hfit : line.length ≤ room) (cur : List UInt8) :
    chunksFrom n room cur line = [cur ++ line] := by
  induction line generalizing room cur with
  | nil => exact absurd rfl hne
  | cons c line ih =>
    have hc : c ≠ newline := fun h => hline (by rw [h]; exact List.mem_cons_self)
    simp only [List.length_cons] at hfit
    by_cases hnil : line = []
    · subst hnil
      rw [chunksFrom]
      split <;> simp [chunksFrom]
    · have hpos := List.length_pos_of_ne_nil hnil
      rw [chunksFrom, if_neg (by simp [hc]; lia),
        ih (fun h => hline (List.mem_cons_of_mem _ h)) hnil (by lia)]
      simp

/-- A chunk fits into the buffer. -/
theorem length_le_of_mem_chunks {n : Nat} (hn : 0 < n) {bs chunk : List UInt8}
    (h : chunk ∈ chunks n bs) : chunk.length ≤ n := by
  suffices haux : ∀ (bs cur : List UInt8) (room : Nat), 0 < room → cur.length + room = n →
      chunk ∈ chunksFrom n room cur bs → chunk.length ≤ n from haux bs [] n hn (by simp) h
  intro bs
  induction bs with
  | nil =>
    intro cur room hroom hsum hchunk
    unfold chunksFrom at hchunk
    split at hchunk
    · cases hchunk
    · rw [List.mem_singleton.1 hchunk]
      lia
  | cons b bs ih =>
    intro cur room hroom hsum hchunk
    unfold chunksFrom at hchunk
    split at hchunk
    · obtain rfl | hchunk := List.mem_cons.1 hchunk
      · rw [List.length_append, List.length_singleton]
        lia
      · exact ih [] n hn (by simp) hchunk
    · exact ih (cur ++ [b]) (room - 1) (by lia)
        (by rw [List.length_append, List.length_singleton]; lia) hchunk

/-- What a buffer with `room` characters left shows of a text: its first line, as far as it fits. -/
def shown (room : Nat) (text : List UInt8) : List UInt8 :=
  (text.takeWhile (· ≠ newline)).take room

theorem shown_prefix (room : Nat) (text : List UInt8) :
    shown room text ++ text.drop (shown room text).length = text :=
  List.prefix_iff_eq_append.1 ((List.take_prefix _ _).trans (List.takeWhile_prefix _))

theorem newline_notMem_shown (room : Nat) (text : List UInt8) : newline ∉ shown room text := by
  intro h
  simpa using List.mem_takeWhile_imp (List.mem_of_mem_take h)

/-- **A line behind a prefix**: the first chunk has what fits, and other chunks have the rest. -/
theorem chunks_line {n : Nat} {pre : List UInt8} (hpre : newline ∉ pre) (hlen : pre.length < n)
    (text : List UInt8) :
    ∃ tail rest, chunks n (pre ++ text ++ [newline]) =
        (pre ++ shown (n - pre.length) text ++ tail) :: chunks n rest ∧
      (tail = [] ∨ tail = [newline]) ∧
      shown (n - pre.length) text ++ tail ++ rest = text ++ [newline] := by
  have hline : newline ∉ text.takeWhile (· ≠ newline) := by
    intro h
    simpa using List.mem_takeWhile_imp h
  have hsplit : text.takeWhile (· ≠ newline) ++ text.dropWhile (· ≠ newline) = text :=
    List.takeWhile_append_dropWhile
  by_cases hfit : (text.takeWhile (· ≠ newline)).length < n - pre.length
  · -- the line and its newline fit
    have hshown : shown (n - pre.length) text = text.takeWhile (· ≠ newline) :=
      List.take_of_length_le (by lia)
    obtain ⟨rest, hrest⟩ : ∃ rest, text.dropWhile (· ≠ newline) ++ [newline] = newline :: rest := by
      cases hdrop : text.dropWhile (· ≠ newline) with
      | nil => exact ⟨[], rfl⟩
      | cons c ds =>
        have hc : c = newline := by simpa using dropWhile_eq_cons hdrop
        exact ⟨ds ++ [newline], by rw [hc]; rfl⟩
    have htext : text ++ [newline] = text.takeWhile (· ≠ newline) ++ newline :: rest := by
      rw [← hrest, ← List.append_assoc, hsplit]
    refine ⟨[newline], rest, ?_, Or.inr rfl, ?_⟩
    · rw [hshown, List.append_assoc, htext, ← List.append_assoc]
      have hclean : newline ∉ pre ++ text.takeWhile (· ≠ newline) := by
        rw [List.mem_append, not_or]
        exact ⟨hpre, hline⟩
      exact chunksFrom_line hclean (by rw [List.length_append]; lia) [] rest
    · rw [hshown, htext]
      simp
  · have hshown : (shown (n - pre.length) text).length = n - pre.length := by
      unfold shown
      rw [List.length_take]
      lia
    refine ⟨[], text.drop (shown (n - pre.length) text).length ++ [newline], ?_, Or.inl rfl, ?_⟩
    · rw [List.append_nil]
      conv_lhs => rw [← shown_prefix (n - pre.length) text]
      rw [List.append_assoc, List.append_assoc, ← List.append_assoc]
      apply chunksFrom_cut
      · simp [hpre, newline_notMem_shown]
      · intro hnil
        have hzero := congrArg List.length hnil
        simp only [List.length_append, hshown, List.length_nil] at hzero
        lia
      · rw [List.length_append, hshown]
        lia
    · rw [List.append_nil, ← List.append_assoc, shown_prefix]

/-! ## `strtok` -/

variable (delim : UInt8 → Bool)

/-- What is behind the first token and the character that ends it. -/
def afterWord (s : List UInt8) : List UInt8 := ((s.dropWhile delim).dropWhile (!delim ·)).drop 1

/-- The first token, and where the next call goes on. -/
def strtok (s : List UInt8) : Option (List UInt8 × List UInt8) :=
  match s.dropWhile delim with
  | [] => none
  | c :: rest => some ((c :: rest).takeWhile (!delim ·), afterWord delim s)

/-- A token is not empty, and is a part of the text. -/
theorem strtok_some {s word rest : List UInt8} (h : strtok delim s = some (word, rest)) :
    word ≠ [] ∧ word.length ≤ s.length ∧ rest.length ≤ s.length := by
  unfold strtok at h
  have hdrop := (List.dropWhile_suffix delim (l := s)).length_le
  cases hs : s.dropWhile delim with
  | nil =>
    rw [hs] at h
    cases h
  | cons c t =>
    rw [hs] at h hdrop
    cases h
    have hc : delim c = false := dropWhile_eq_cons hs
    refine ⟨?_, ?_, ?_⟩
    · rw [List.takeWhile_cons_of_pos (by simpa using hc)]
      exact List.cons_ne_nil _ _
    · exact ((List.takeWhile_prefix _).length_le).trans hdrop
    · unfold afterWord
      rw [hs, List.length_drop]
      have htail := (List.dropWhile_suffix (!delim ·) (l := c :: t)).length_le
      omega

def words (s : List UInt8) : List (List UInt8) := (s.splitOnP delim).filter (· ≠ [])

theorem words_of_dropWhile (s : List UInt8) : words delim s = words delim (s.dropWhile delim) := by
  induction s with
  | nil => rfl
  | cons c s ih =>
    rw [List.dropWhile_cons]
    split
    · rename_i hc
      rw [← ih]
      unfold words
      rw [List.splitOnP_cons_eq_if_modifyHead, if_pos hc, List.filter_cons_of_neg (by simp)]
    · rfl

/-- **The tokens of a text**, one after the other. -/
theorem words_eq (s : List UInt8) :
    words delim s = match strtok delim s with
      | none => []
      | some (word, rest) => word :: words delim rest := by
  rw [words_of_dropWhile]
  unfold strtok afterWord
  cases hs : s.dropWhile delim with
  | nil => rfl
  | cons c rest =>
    have hc : delim c = false := dropWhile_eq_cons hs
    have hword : ∀ b ∈ (c :: rest).takeWhile (!delim ·), delim b = false := by
      intro b hb
      simpa using List.mem_takeWhile_imp hb
    have hne : (c :: rest).takeWhile (!delim ·) ≠ [] := by
      rw [List.takeWhile_cons_of_pos (by simpa using hc)]
      exact List.cons_ne_nil _ _
    dsimp only
    conv_lhs => rw [← List.takeWhile_append_dropWhile (p := (!delim ·)) (l := c :: rest)]
    unfold words
    cases hafter : (c :: rest).dropWhile (!delim ·) with
    | nil =>
      rw [List.append_nil, List.splitOnP_eq_singleton hword,
        List.filter_cons_of_pos (by simpa using hne)]
      rfl
    | cons d after =>
      have hd : delim d = true := by simpa using dropWhile_eq_cons hafter
      rw [List.splitOnP_append_cons_of_forall_mem hword d hd,
        List.filter_cons_of_pos (by simpa using hne)]
      rfl

variable {delim}

theorem dropWhile_word {word : List UInt8} (hne : word ≠ [])
    (hword : ∀ c ∈ word, delim c = false) (rest : List UInt8) :
    (word ++ rest).dropWhile delim = word ++ rest := by
  cases word with
  | nil => exact absurd rfl hne
  | cons c word =>
    have hc : delim c = false := hword c List.mem_cons_self
    rw [List.cons_append, List.dropWhile_cons_of_neg (by simp [hc])]

/-- A token, and the character that ends it. -/
theorem strtok_word {word rest : List UInt8} {d : UInt8} (hne : word ≠ [])
    (hword : ∀ c ∈ word, delim c = false) (hd : delim d = true) :
    strtok delim (word ++ d :: rest) = some (word, rest) := by
  have hall : ∀ c ∈ word, (!delim c) = true := by simpa using hword
  unfold strtok afterWord
  rw [dropWhile_word hne hword, List.dropWhile_append_of_pos hall,
    List.dropWhile_cons_of_neg (by simp [hd])]
  split
  · rename_i hnil
    simp at hnil
  · rename_i hcons
    rw [← hcons, List.takeWhile_append_of_pos hall, List.takeWhile_cons_of_neg (by simp [hd]),
      List.append_nil]
    rfl

/-- A token at the end. -/
theorem strtok_last {word : List UInt8} (hne : word ≠ []) (hword : ∀ c ∈ word, delim c = false) :
    strtok delim word = some (word, []) := by
  have hall : ∀ c ∈ word, (!delim c) = true := by simpa using hword
  have hdrop := dropWhile_word hne hword []
  rw [List.append_nil] at hdrop
  unfold strtok afterWord
  rw [hdrop, List.dropWhile_eq_nil_iff.2 hall]
  cases word with
  | nil => exact absurd rfl hne
  | cons c word =>
    dsimp only
    rw [List.takeWhile_eq_self_iff.2 hall]
    rfl

theorem strtok_eq_none {s : List UInt8} : strtok delim s = none ↔ ∀ c ∈ s, delim c = true := by
  rw [← List.dropWhile_eq_nil_iff]
  unfold strtok
  split
  · rename_i hnil
    simp [hnil]
  · rename_i hcons
    simp [hcons]

theorem strtok_some_word {s word rest : List UInt8} (h : strtok delim s = some (word, rest)) :
    word ≠ [] ∧ (∀ c ∈ word, delim c = false) ∧ (∀ c ∈ word, c ∈ s) ∧
      rest = afterWord delim s := by
  unfold strtok at h
  split at h
  · cases h
  · rename_i c t hcons
    simp only [Option.some.injEq, Prod.mk.injEq] at h
    obtain ⟨rfl, hrest⟩ := h
    refine ⟨?_, ?_, ?_, hrest.symm⟩
    · rw [List.takeWhile_cons_of_pos (by simp [dropWhile_eq_cons hcons])]
      exact List.cons_ne_nil _ _
    · intro b hb
      simpa using List.mem_takeWhile_imp hb
    · intro b hb
      have hmem := (List.takeWhile_prefix _).subset hb
      rw [← hcons] at hmem
      exact (List.dropWhile_suffix _).subset hmem

end Recovery.Lib
