import Leetrank.Library.Words
import Leetrank.Playback.Events
import Mathlib.Data.List.DropRight

namespace Leetrank
set_option autoImplicit true

open Words

def dash : UInt16 := 45

/-- The class `[a-z0-9]`. -/
def alphanumeric (c : UInt16) : Bool := (97 ≤ c && c ≤ 122) || (48 ≤ c && c ≤ 57)

/-- The combining diacritics, from U+0300 to U+036F. -/
def combining (c : UInt16) : Bool := 0x300 ≤ c && c ≤ 0x36f

def slugUnit (c : UInt16) : Bool := alphanumeric c || c == dash

/-- `String.prototype.normalize` and `toLowerCase`, which leave the texts of `[a-z0-9-]` alone. -/
structure UnicodeMaps where
  normalizeNFD : JsString → JsString
  toLowerCase : JsString → JsString
  nfd_slug : ∀ s, (∀ c ∈ s, slugUnit c = true) → normalizeNFD s = s
  lower_slug : ∀ s, (∀ c ∈ s, slugUnit c = true) → toLowerCase s = s

/-- One dash in place of every run of other characters; `inRun` is set within a run. -/
def dashRuns (inRun : Bool) : JsString → JsString
  | [] => []
  | c :: s =>
    if alphanumeric c then c :: dashRuns false s
    else if inRun then dashRuns true s
    else dash :: dashRuns true s

def trimDashes (s : JsString) : JsString := (s.dropWhile (· == dash)).rdropWhile (· == dash)

/-- The text that the words of a slug are taken from. -/
def plainText (m : UnicodeMaps) (input : JsString) : JsString :=
  m.toLowerCase ((m.normalizeNFD input).filter fun c => !combining c)

def slugify (m : UnicodeMaps) (input : JsString) : JsString :=
  (trimDashes (dashRuns false (plainText m input))).take 200

/-- The expression `^([a-z0-9]+(-[a-z0-9]+)*)?$`. -/
def IsSlug (s : JsString) : Prop := Joined alphanumeric dash s

variable {m : UnicodeMaps} {s w : JsString} {c : UInt16}

theorem alphanumeric_dash : alphanumeric dash = false := by decide

theorem dashRuns_letters (inRun : Bool) (hw : Word alphanumeric w) (s : JsString) :
    dashRuns inRun (w ++ s) = w ++ dashRuns false s := by
  obtain ⟨hne, hletters⟩ := hw
  induction w generalizing inRun with
  | nil => exact absurd rfl hne
  | cons c w ih =>
    rw [List.cons_append, dashRuns, if_pos (hletters c List.mem_cons_self)]
    cases w with
    | nil => rfl
    | cons d w =>
      rw [ih false (List.cons_ne_nil d w) fun a ha => hletters a (List.mem_cons_of_mem c ha)]
      rfl

/-- Within a run, what is left are the words with a dash between each two, and maybe one more dash
at the end. -/
theorem dashRuns_true (s : JsString) :
    ∃ tail, (tail = [] ∨ tail = [dash]) ∧ (words alphanumeric s = [] → tail = []) ∧
      dashRuns true s = join dash (words alphanumeric s) ++ tail := by
  induction s using text_induction (p := alphanumeric) with
  | nil => exact ⟨[], .inl rfl, fun _ => rfl, rfl⟩
  | skip c s hc ih =>
    rw [words_cons_of_not hc, dashRuns, if_neg (by rw [hc]; decide), if_pos rfl]
    exact ih
  | last w hw =>
    have hruns := dashRuns_letters true hw []
    rw [List.append_nil] at hruns
    rw [words_word hw, hruns]
    exact ⟨[], .inl rfl, fun _ => rfl, rfl⟩
  | next w c s hw hc ih =>
    have hruns : dashRuns true (w ++ c :: s) = w ++ dash :: dashRuns true s := by
      rw [dashRuns_letters true hw, dashRuns, if_neg (by rw [hc]; decide), if_neg (by decide)]
    obtain ⟨tail, htail, hnone, heq⟩ := ih
    rw [words_append_cons hw hc, hruns, heq]
    by_cases hs : words alphanumeric s = []
    · rw [hs, hnone hs]
      exact ⟨[dash], .inr rfl, fun h => absurd h (List.cons_ne_nil w []), rfl⟩
    · refine ⟨tail, htail, fun h => absurd h (List.cons_ne_nil w _), ?_⟩
      rw [join_cons_of_ne_nil w hs, List.append_assoc, List.cons_append]

theorem beq_dash_of_alphanumeric (h : alphanumeric c = true) : (c == dash) = false := by
  rw [beq_eq_false_iff_ne]
  rintro rfl
  cases h

theorem dropWhile_dashRuns_true (s : JsString) :
    (dashRuns true s).dropWhile (· == dash) = dashRuns true s := by
  induction s with
  | nil => rfl
  | cons c s ih =>
    rw [dashRuns]
    split
    next hc =>
      refine List.dropWhile_cons_of_neg ?_
      rw [beq_dash_of_alphanumeric hc]
      decide
    next => exact ih

theorem dropWhile_dashRuns_false (s : JsString) :
    (dashRuns false s).dropWhile (· == dash) = dashRuns true s := by
  cases s with
  | nil => rfl
  | cons c s =>
    rw [dashRuns, dashRuns]
    split
    next hc =>
      refine List.dropWhile_cons_of_neg ?_
      rw [beq_dash_of_alphanumeric hc]
      decide
    next =>
      rw [if_neg (by decide), if_pos rfl, List.dropWhile_cons, if_pos (beq_self_eq_true dash)]
      exact dropWhile_dashRuns_true s

theorem rdropWhile_join {ws : List JsString} (h : ∀ w ∈ ws, Word alphanumeric w) :
    (join dash ws).rdropWhile (· == dash) = join dash ws := by
  rw [List.rdropWhile_eq_self_iff]
  intro hne
  rw [beq_dash_of_alphanumeric (join_last h (List.getLast?_eq_some_getLast hne))]
  decide

/-- What the steps before the cut make of a text: its words, with a dash between each two. -/
theorem trimDashes_dashRuns (s : JsString) :
    trimDashes (dashRuns false s) = join dash (words alphanumeric s) := by
  have hjoin := rdropWhile_join (words_are_words alphanumeric s)
  obtain ⟨tail, htail, _, heq⟩ := dashRuns_true s
  rw [trimDashes, dropWhile_dashRuns_false, heq]
  rcases htail with rfl | rfl
  · rw [List.append_nil, hjoin]
  · rw [List.rdropWhile_concat, if_pos (beq_self_eq_true dash), hjoin]

def titleWords (m : UnicodeMaps) (input : JsString) : List JsString :=
  words alphanumeric (plainText m input)

theorem slugify_eq (m : UnicodeMaps) (input : JsString) :
    slugify m input = (join dash (titleWords m input)).take 200 := by
  rw [slugify, trimDashes_dashRuns]
  rfl

theorem join_units {ws : List JsString} (h : ∀ w ∈ ws, Word alphanumeric w) :
    ∀ c ∈ join dash ws, slugUnit c = true := by
  induction ws with
  | nil => exact fun _ hc => nomatch hc
  | cons w ws ih =>
    obtain ⟨hw, hws⟩ := List.forall_mem_cons.1 h
    have hletters : ∀ c ∈ w, slugUnit c = true := by
      intro c hc
      rw [slugUnit, hw.letters c hc]
      rfl
    by_cases hnil : ws = []
    · subst hnil
      exact hletters
    · rw [join_cons_of_ne_nil w hnil]
      refine List.forall_mem_append.2 ⟨hletters, List.forall_mem_cons.2 ⟨by decide, ih hws⟩⟩

theorem not_combining_of_slugUnit (h : slugUnit c = true) : (!combining c) = true := by
  have hlow : c.toNat ≤ 122 := by
    simp only [slugUnit, alphanumeric, dash, Bool.or_eq_true, Bool.and_eq_true, decide_eq_true_eq,
      beq_iff_eq, UInt16.le_iff_toNat_le, ← UInt16.toNat_inj] at h
    simp at h
    omega
  have hbelow : ¬(0x300 : UInt16) ≤ c := by
    rw [UInt16.le_iff_toNat_le]
    simp
    omega
  simp [combining, hbelow]

/-- A slug goes through every step unchanged, but for the cut. -/
theorem slugify_slug (m : UnicodeMaps) (h : IsSlug s) : slugify m s = s.take 200 := by
  obtain ⟨ws, hws, rfl⟩ := h
  have hunits := join_units hws
  have hplain : plainText m (join dash ws) = join dash ws := by
    rw [plainText, m.nfd_slug _ hunits,
      List.filter_eq_self.2 fun c hc => not_combining_of_slugUnit (hunits c hc),
      m.lower_slug _ hunits]
  rw [slugify_eq, titleWords, hplain, words_join alphanumeric_dash hws]

/-- The cut leaves a slug, which is its own slug, exactly if it is not right after the dash behind
the first words of the title, of which there are more. -/
theorem slugify_valid_iff (m : UnicodeMaps) (input : JsString) :
    (IsSlug (slugify m input) ∧ (slugify m input).length ≤ 200 ∧
      slugify m (slugify m input) = slugify m input) ↔
    ∀ k, 0 < k → k < (titleWords m input).length →
      (join dash ((titleWords m input).take k)).length ≠ 199 := by
  have hwords : ∀ w ∈ titleWords m input, Word alphanumeric w := words_are_words alphanumeric _
  have hlength : (slugify m input).length ≤ 200 := List.length_take_le 200 _
  rw [← joined_take_iff alphanumeric_dash hwords, ← slugify_eq]
  constructor
  · rintro ⟨hslug, _⟩
    exact hslug
  · intro hslug
    exact ⟨hslug, hlength, by rw [slugify_slug m hslug, List.take_of_length_le hlength]⟩

theorem not_upper_of_slugUnit (h : slugUnit c = true) : ¬(65 ≤ c && c ≤ 90) = true := by
  simp only [slugUnit, alphanumeric, dash, Bool.or_eq_true, Bool.and_eq_true, decide_eq_true_eq,
    beq_iff_eq, UInt16.le_iff_toNat_le, ← UInt16.toNat_inj] at h ⊢
  simp at h ⊢
  omega

/-- On ASCII nothing is decomposed. -/
def asciiMaps : UnicodeMaps where
  normalizeNFD := id
  toLowerCase := fun s => s.map fun c => if 65 ≤ c && c ≤ 90 then c + 32 else c
  nfd_slug := fun _ _ => rfl
  lower_slug := by
    intro s hs
    have hsame : ∀ c ∈ s, (if 65 ≤ c && c ≤ 90 then c + 32 else c) = c := by
      intro c hc
      rw [if_neg (not_upper_of_slugUnit (hs c hc))]
    rw [List.map_congr_left hsame, List.map_id']

/-- A word of 199 letters and one more word. -/
def longTitle : JsString := List.replicate 199 97 ++ [32, 98]

theorem slugify_ends_with_dash :
    slugify asciiMaps longTitle = List.replicate 199 97 ++ [dash] ∧
      ¬IsSlug (slugify asciiMaps longTitle) := by
  have hcut : slugify asciiMaps longTitle = List.replicate 199 97 ++ [dash] := by
    decide +kernel
  refine ⟨hcut, ?_⟩
  rintro ⟨ws, hws, hjoin⟩
  have hlast : dash ∈ (join dash ws).getLast? := by
    rw [← hjoin, hcut, List.getLast?_concat]
    rfl
  exact absurd (join_last hws hlast) (by decide)

end Leetrank
