import Leetrank.Library.Text

namespace Paths
set_option autoImplicit true

/-- An absolute path, by the names below the root. -/
abbrev Path := List String

def Path.text (p : Path) : String := "/" ++ "/".intercalate p

/-- One name on the way; the parent of the root is the root. -/
def push (p : Path) (name : String) : Path :=
  if name = "" ∨ name = "." then p else if name = ".." then p.dropLast else p ++ [name]

def clean (names : List String) : Path := names.foldl push []

def components (s : String) : List String :=
  (Text.splitAt (· == '/') s.toList).map String.ofList

def join (dir : Path) (s : String) : Path := clean (dir ++ components s)

def parent (p : Path) : Path := clean p.dropLast

/-- A name that means itself as a component of a path. -/
def Plain (name : String) : Prop :=
  name ≠ "" ∧ name ≠ "." ∧ name ≠ ".." ∧ '/' ∉ name.toList

instance (name : String) : Decidable (Plain name) := inferInstanceAs (Decidable (_ ∧ _))

theorem push_plain (p : Path) (h : Plain name) : push p name = p ++ [name] := by
  obtain ⟨h₁, h₂, h₃, _⟩ := h
  simp only [push, h₁, h₂, h₃, or_self, if_false]

theorem foldl_push_plain (p : Path) (h : ∀ name ∈ names, Plain name) :
    names.foldl push p = p ++ names := by
  induction names generalizing p with
  | nil => rw [List.foldl_nil, List.append_nil]
  | cons name names ih =>
    rw [List.forall_mem_cons] at h
    rw [List.foldl_cons, push_plain p h.1, ih _ h.2, List.append_assoc]
    rfl

theorem clean_plain (h : ∀ name ∈ names, Plain name) : clean names = names :=
  foldl_push_plain [] h

theorem splitAt_eq_singleton (isSep : Char → Bool) {s : List Char} (h : ∀ c ∈ s, isSep c = false) :
    Text.splitAt isSep s = [s] := by
  induction s with
  | nil => rfl
  | cons c s ih =>
    rw [List.forall_mem_cons] at h
    simp only [Text.splitAt, ih h.2, h.1, Bool.false_eq_true, if_false]

theorem components_plain (h : Plain name) : components name = [name] := by
  obtain ⟨_, _, _, hs⟩ := h
  have hsep : ∀ c ∈ name.toList, (c == '/') = false := by
    intro c hc
    rw [beq_eq_false_iff_ne]
    rintro rfl
    exact hs hc
  rw [components, splitAt_eq_singleton _ hsep, List.map_singleton, String.ofList_toList]

theorem join_plain {dir : Path} (hd : ∀ name ∈ dir, Plain name) (h : Plain s) :
    join dir s = dir ++ [s] := by
  rw [join, components_plain h]
  apply clean_plain
  intro name hn
  rcases List.mem_append.1 hn with hn | hn
  · exact hd name hn
  · rw [List.mem_singleton.1 hn]
    exact h

theorem parent_append {dir : Path} (hd : ∀ name ∈ dir, Plain name) (name : String) :
    parent (dir ++ [name]) = dir := by
  rw [parent, List.dropLast_concat, clean_plain hd]

theorem mem_push {p : Path} (h : name ∈ push p s) : name ∈ p ∨ name = s := by
  rw [push] at h
  split at h
  next => exact .inl h
  next =>
    split at h
    next => exact .inl (List.dropLast_subset p h)
    next => rwa [List.mem_append, List.mem_singleton] at h

theorem mem_clean (h : name ∈ clean names) : name ∈ names := by
  induction names using List.reverseRecOn with
  | nil => exact h
  | append_singleton names s ih =>
    rw [clean, List.foldl_append] at h
    rcases mem_push h with h | h
    · exact List.mem_append_left _ (ih h)
    · rw [h]
      exact List.mem_append_right _ List.mem_cons_self

/-- A path of which every name is made of certain characters. -/
def Path.MadeOf (P : Char → Prop) (p : Path) : Prop := ∀ name ∈ p, ∀ c ∈ name.toList, P c

theorem Path.MadeOf.join {dir : Path} (hd : dir.MadeOf P) (hs : ∀ c ∈ s.toList, P c) :
    Path.MadeOf P (join dir s) := by
  intro name hname c hc
  rcases List.mem_append.1 (mem_clean hname) with hname | hname
  · exact hd name hname c hc
  · obtain ⟨part, hpart, rfl⟩ := List.mem_map.1 hname
    rw [String.toList_ofList] at hc
    exact hs c (Text.mem_splitAt hpart hc)

theorem Path.MadeOf.text {p : Path} (hp : p.MadeOf P) (hslash : P '/') :
    ∀ c ∈ p.text.toList, P c := by
  have hsep : ∀ c ∈ "/".toList, P c := by
    intro c hc
    rw [List.mem_singleton.1 hc]
    exact hslash
  have hnames : ∀ c ∈ ("/".intercalate p).toList, P c := by
    induction p with
    | nil =>
      rw [String.intercalate_nil]
      exact fun c hc => absurd hc List.not_mem_nil
    | cons name p ih =>
      rw [Path.MadeOf, List.forall_mem_cons] at hp
      cases p with
      | nil =>
        rw [String.intercalate_singleton]
        exact hp.1
      | cons name' p =>
        intro c hc
        rw [String.intercalate_cons_cons, String.toList_append, String.toList_append,
          List.append_assoc, List.mem_append, List.mem_append] at hc
        rcases hc with hc | hc | hc
        · exact hp.1 c hc
        · exact hsep c hc
        · exact ih hp.2 c hc
  intro c hc
  rw [Path.text, String.toList_append, List.mem_append] at hc
  exact hc.elim (hsep c) (hnames c)

def Path.Contains (dir p : Path) : Prop := dir <+: p

instance (dir p : Path) : Decidable (dir.Contains p) := inferInstanceAs (Decidable (_ <+: _))

theorem Path.contains_append (dir p : Path) : dir.Contains (dir ++ p) := List.prefix_append dir p

/-- Two entries of one directory have no common descendant. -/
theorem not_contains_of_ne {dir : Path} (h : a ≠ b) (p : Path) :
    ¬ Path.Contains (dir ++ [a]) (dir ++ b :: p) := by
  rw [Path.Contains, List.prefix_append_right_inj]
  rintro ⟨rest, hr⟩
  rw [List.singleton_append, List.cons.injEq] at hr
  exact h hr.1

end Paths
