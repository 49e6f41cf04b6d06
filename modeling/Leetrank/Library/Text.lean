import Mathlib.Data.List.DropRight

namespace Text
set_option autoImplicit true

def trim (isSpace : Char → Bool) (s : String) : String :=
  String.ofList ((s.toList.dropWhile isSpace).rdropWhile isSpace)

def Blank (isSpace : Char → Bool) (s : String) : Prop := trim isSpace s = ""

instance (isSpace : Char → Bool) (s : String) : Decidable (Blank isSpace s) :=
  inferInstanceAs (Decidable (_ = _))

theorem toList_eq_nil {s : String} : s.toList = [] ↔ s = "" := by
  rw [← String.toList_inj]
  rfl

theorem trim_head {isSpace : Char → Bool} (h : s.toList = c :: rest) (hc : isSpace c = false) :
    ∃ t, (trim isSpace s).toList = c :: t := by
  rw [trim, String.toList_ofList, h, List.dropWhile_cons_of_neg (by simp [hc])]
  obtain ⟨t, ht⟩ := List.rdropWhile_prefix isSpace (l := c :: rest)
  cases hl : (c :: rest).rdropWhile isSpace with
  | nil =>
    have hall := List.rdropWhile_eq_nil_iff.1 hl c List.mem_cons_self
    rw [hc] at hall
    cases hall
  | cons d l =>
    rw [hl, List.cons_append, List.cons.injEq] at ht
    rw [ht.1]
    exact ⟨l, rfl⟩

/-- Trimming commutes with a map of characters that respects white space. -/
theorem trim_map {isSpace : Char → Bool} {f : Char → Char} (hf : ∀ c, isSpace (f c) = isSpace c)
    (s : String) : trim isSpace (String.ofList (s.toList.map f)) =
      String.ofList ((trim isSpace s).toList.map f) := by
  have hcomp : isSpace ∘ f = isSpace := funext hf
  simp only [trim, String.toList_ofList, List.dropWhile_map, List.rdropWhile, ← List.map_reverse,
    hcomp]

theorem length_trim (isSpace : Char → Bool) (s : String) :
    (trim isSpace s).toList.length =
      (((s.toList.map isSpace).dropWhile id).rdropWhile id).length := by
  have hcomp : (id : Bool → Bool) ∘ isSpace = isSpace := rfl
  rw [trim, String.toList_ofList, List.dropWhile_map, List.rdropWhile, List.rdropWhile,
    ← List.map_reverse, List.dropWhile_map, hcomp, ← List.map_reverse, List.length_map]

theorem trim_sublist (isSpace : Char → Bool) (s : String) :
    (trim isSpace s).toList.Sublist s.toList := by
  rw [trim, String.toList_ofList]
  exact (List.rdropWhile_prefix isSpace _).sublist.trans (List.dropWhile_suffix isSpace).sublist

/-- Whether there is something to trim depends only on where the white space is. -/
theorem trim_eq_self_of_spaces {isSpace : Char → Bool} {s t : String}
    (hst : t.toList.map isSpace = s.toList.map isSpace) (h : trim isSpace s = s) :
    trim isSpace t = t := by
  have hlen : t.toList.length = s.toList.length := by
    rw [← List.length_map isSpace, hst, List.length_map]
  apply String.toList_inj.1
  apply (trim_sublist isSpace t).eq_of_length
  rw [length_trim, hst, ← length_trim, h, hlen]

theorem trim_trim (isSpace : Char → Bool) (s : String) :
    trim isSpace (trim isSpace s) = trim isSpace s := by
  have hpre := List.rdropWhile_prefix isSpace (s.toList.dropWhile isSpace)
  have hhead : ((s.toList.dropWhile isSpace).rdropWhile isSpace).dropWhile isSpace =
      (s.toList.dropWhile isSpace).rdropWhile isSpace := by
    rw [List.dropWhile_eq_self_iff]
    intro hl
    rw [hpre.getElem hl]
    exact List.dropWhile_eq_self_iff.1 (List.dropWhile_idempotent _ _) _
  rw [trim, trim, String.toList_ofList, hhead, List.rdropWhile_idempotent]

def occursIn (p : List Char) : List Char → Bool
  | [] => p.isEmpty
  | c :: s => p.isPrefixOf (c :: s) || occursIn p s

theorem occursIn_iff (p s : List Char) : occursIn p s = true ↔ p <:+: s := by
  induction s with
  | nil => simp [occursIn]
  | cons c s ih =>
    rw [occursIn, Bool.or_eq_true, List.isPrefixOf_iff_prefix, ih, List.infix_cons_iff]

def contains (s p : String) : Bool := occursIn p.toList s.toList

def hasPrefix (s p : String) : Bool := p.toList.isPrefixOf s.toList

theorem hasPrefix_eq_false {s p : String} (hs : s.toList = c :: l) (hp : p.toList = d :: l')
    (h : c ≠ d) : hasPrefix s p = false := by
  rw [hasPrefix, hs, hp, List.isPrefixOf_cons_cons]
  simp [Ne.symm h]

/-- Search up to a folding of the characters, such as the case of letters. -/
def containsFold (fold : Char → Char) (s p : String) : Bool :=
  occursIn (p.toList.map fold) (s.toList.map fold)

/-- A pattern and a separating text such that no occurrence of the pattern can begin inside the
separator, or before it, and end beyond it. -/
def Separates (p sep : List Char) : Prop :=
  ∀ n < p.length, 0 < n → ¬ p.take n <:+ sep ∧ ¬ sep <:+ p.take n

instance (p sep : List Char) : Decidable (Separates p sep) :=
  inferInstanceAs (Decidable (∀ n < p.length, _ → _))

theorem Separates.infix_append {p sep : List Char} (h : Separates p sep) (s t : List Char) :
    p <:+: (s ++ sep) ++ t ↔ p <:+: s ++ sep ∨ p <:+: t := by
  rw [List.infix_append_iff_ne_nil]
  constructor
  · rintro (h₁ | h₁ | ⟨l₁, l₂, hl₁, hl₂, rfl, hs, _⟩)
    · exact .inl h₁
    · exact .inr h₁
    · -- a part of the pattern would end where the separator ends
      have hlen : l₁.length < (l₁ ++ l₂).length := by
        rw [List.length_append]
        have := List.length_pos_of_ne_nil hl₂
        omega
      have hn := h l₁.length hlen (List.length_pos_of_ne_nil hl₁)
      rw [List.take_left'] at hn
      · rcases List.suffix_or_suffix_of_suffix hs (List.suffix_append s sep) with hc | hc
        · exact (hn.1 hc).elim
        · exact (hn.2 hc).elim
      · rfl
  · rintro (h₁ | h₁)
    · exact .inl h₁
    · exact .inr (.inl h₁)

theorem not_infix_of_mem {p s : List Char} (hp : c ∈ p) (hs : c ∉ s) : ¬ p <:+: s :=
  fun h => hs (h.mem hp)

/-- Behind a separator that has nothing of the pattern, only the rest can contain it. -/
theorem contains_append {p : String} (s sep t : String) (hp : Separates p.toList sep.toList)
    (hs : ¬ p.toList <:+: (s ++ sep).toList) : contains (s ++ sep ++ t) p = contains t p := by
  rw [Bool.eq_iff_iff, contains, contains, occursIn_iff, occursIn_iff, String.toList_append,
    String.toList_append, hp.infix_append, ← String.toList_append]
  exact or_iff_right hs

def splitAt (isSep : Char → Bool) : List Char → List (List Char)
  | [] => [[]]
  | c :: s =>
    match splitAt isSep s with
    | [] => [[c]]
    | line :: rest => if isSep c then [] :: line :: rest else (c :: line) :: rest

theorem mem_splitAt {isSep : Char → Bool} {s part : List Char} (h : part ∈ splitAt isSep s)
    (hc : c ∈ part) : c ∈ s := by
  induction s generalizing part with
  | nil =>
    rw [splitAt, List.mem_singleton] at h
    rw [h] at hc
    exact hc
  | cons d s ih =>
    rw [splitAt] at h
    split at h
    next =>
      rw [List.mem_singleton] at h
      rw [h, List.mem_singleton] at hc
      rw [hc]
      exact List.mem_cons_self
    next line rest heq =>
      rw [heq] at ih
      split at h
      next =>
        rcases List.mem_cons.1 h with h | h
        · rw [h] at hc
          exact absurd hc List.not_mem_nil
        · exact List.mem_cons_of_mem d (ih h hc)
      next =>
        rcases List.mem_cons.1 h with h | h
        · rw [h] at hc
          rcases List.mem_cons.1 hc with hc | hc
          · rw [hc]
            exact List.mem_cons_self
          · exact List.mem_cons_of_mem d (ih List.mem_cons_self hc)
        · exact List.mem_cons_of_mem d (ih (List.mem_cons_of_mem line h) hc)

theorem splitAt_ne_nil (isSep : Char → Bool) (s : List Char) : splitAt isSep s ≠ [] := by
  cases s with
  | nil => exact List.cons_ne_nil _ _
  | cons c s =>
    rw [splitAt]
    split
    · exact List.cons_ne_nil _ _
    · split <;> exact List.cons_ne_nil _ _

theorem splitAt_cons_sep {isSep : Char → Bool} (hc : isSep c = true) (s : List Char) :
    splitAt isSep (c :: s) = [] :: splitAt isSep s := by
  rw [splitAt]
  split
  next heq => exact absurd heq (splitAt_ne_nil isSep s)
  next heq => rw [if_pos hc, heq]

theorem splitAt_cons_plain {isSep : Char → Bool} (hc : isSep c = false)
    (h : splitAt isSep s = part :: rest) : splitAt isSep (c :: s) = (c :: part) :: rest := by
  rw [splitAt, h]
  dsimp only
  rw [if_neg (by simp [hc])]

/-- To split what was joined by a separator is to split what was joined. -/
theorem splitAt_append_sep {isSep : Char → Bool} (hc : isSep c = true) (s t : List Char) :
    splitAt isSep (s ++ c :: t) = splitAt isSep s ++ splitAt isSep t := by
  induction s with
  | nil => exact splitAt_cons_sep hc t
  | cons d s ih =>
    cases hd : isSep d with
    | true => rw [List.cons_append, splitAt_cons_sep hd, splitAt_cons_sep hd, ih, List.cons_append]
    | false =>
      obtain ⟨part, rest, hs⟩ := List.exists_cons_of_ne_nil (splitAt_ne_nil isSep s)
      rw [hs, List.cons_append] at ih
      rw [List.cons_append, splitAt_cons_plain hd ih, splitAt_cons_plain hd hs, List.cons_append]

/-- A text is cut in one way only at its first separator. -/
theorem cut_first {a a' b b' : List α} (ha : c ∉ a) (ha' : c ∉ a')
    (h : a ++ c :: b = a' ++ c :: b') : a = a' ∧ b = b' := by
  induction a generalizing a' with
  | nil =>
    cases a' with
    | nil => exact ⟨rfl, List.tail_eq_of_cons_eq h⟩
    | cons d a' => exact absurd (List.head_eq_of_cons_eq h ▸ List.mem_cons_self) ha'
  | cons d a ih =>
    cases a' with
    | nil => exact absurd (List.head_eq_of_cons_eq h ▸ List.mem_cons_self) ha
    | cons d' a' =>
      rw [List.mem_cons, not_or] at ha ha'
      obtain ⟨hd, h⟩ := List.cons_eq_cons.1 h
      obtain ⟨rfl, rfl⟩ := ih ha.2 ha'.2 h
      exact ⟨congrArg (· :: a) hd, rfl⟩

/-- A text is cut in one way only at its last separator. -/
theorem cut_last {a a' b b' : List α} (hb : c ∉ b) (hb' : c ∉ b')
    (h : a ++ c :: b = a' ++ c :: b') : a = a' ∧ b = b' := by
  have hr : b.reverse ++ c :: a.reverse = b'.reverse ++ c :: a'.reverse := by
    simpa using congrArg List.reverse h
  obtain ⟨hb, ha⟩ := cut_first (by simpa using hb) (by simpa using hb') hr
  exact ⟨List.reverse_inj.1 ha, List.reverse_inj.1 hb⟩

def joinLines (lines : List (List Char)) : String :=
  String.ofList (['\n'].intercalate lines)

theorem joinLines_ne_empty {lines : List (List Char)} (h : 1 < lines.length) :
    joinLines lines ≠ "" := by
  match lines, h with
  | l₁ :: l₂ :: rest, _ =>
    intro he
    rw [joinLines, ← toList_eq_nil, String.toList_ofList, List.intercalate] at he
    simp at he

def lastLines (n : Nat) (lines : List (List Char)) : String :=
  joinLines (lines.drop (lines.length - n))

theorem lastLines_ne_empty {lines : List (List Char)} (hn : 1 < n) (h : n < lines.length) :
    lastLines n lines ≠ "" := by
  apply joinLines_ne_empty
  rw [List.length_drop]
  omega

end Text
