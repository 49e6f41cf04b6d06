import Leetrank.Judge.Languages
import Mathlib.Data.List.Forall2
import Mathlib.Data.List.Nodup

namespace Leetrank
set_option autoImplicit true

/-- The case of letters: their lower case, and which character a change of case may turn into which
other one. White space has no case. -/
structure LetterCase extends CaseMap where
  recased : Char → Char → Prop
  refl : ∀ c, recased c c
  space_recased : ∀ c d, recased c d → goSpace d = goSpace c

/-- Two texts that differ in the case of letters and in the white space around them. -/
def LetterCase.Alike (m : LetterCase) (s t : String) : Prop :=
  List.Forall₂ m.recased (trimSpace s).toList (trimSpace t).toList

/-- A character is the lower case of both or neither of two that a change of case relates. -/
def LetterCase.Steady (m : LetterCase) (c : Char) : Prop :=
  ∀ d d', m.recased d d' → (m.lower d = c ↔ m.lower d' = c)

inductive LanguagesRead where
  | failed (err : String)
  | notJson (err : String)
  | file (languages : List LanguageConfig)

def loadLanguageFile (path : String) : LanguagesRead → Except String LanguageRegistry
  | .failed err => .error ("read " ++ path ++ ": " ++ err)
  | .notJson err => .error ("parse " ++ path ++ ": " ++ err)
  | .file languages => loadLanguageRegistry path languages

theorem LanguageRegistry.add_byId {r r' : LanguageRegistry} (h : r.add path i lc = .ok r') :
    r'.byId = r.byId ++ [lc] := by
  rw [LanguageRegistry.add] at h
  split at h
  next => cases h
  split at h
  next => cases h
  split at h
  next => cases h
  split at h
  next => cases h
  split at h
  next => cases h
  next =>
    cases h
    rfl

theorem LanguageRegistry.addAll_byId {r r' : LanguageRegistry} {languages : List LanguageConfig}
    (h : r.addAll path i languages = .ok r') : r'.byId = r.byId ++ languages := by
  induction languages generalizing r i with
  | nil =>
    cases h
    exact (List.append_nil _).symm
  | cons lc languages ih =>
    rw [LanguageRegistry.addAll] at h
    split at h
    next r₁ hadd =>
      rw [ih h, LanguageRegistry.add_byId hadd, List.append_assoc]
      rfl
    next => cases h

/-- The registry has the entries of the file, in their order. -/
theorem loadLanguageFile_byId {languages : List LanguageConfig}
    (h : loadLanguageFile path (.file languages) = .ok r) : r.byId = languages := by
  rw [loadLanguageFile, loadLanguageRegistry] at h
  split at h
  next => cases h
  next => exact LanguageRegistry.addAll_byId h

theorem LanguageRegistry.lookup_eq_some_iff (r : LanguageRegistry) :
    r.lookup x = some lc ↔ lc ∈ r.byId ∧ lc.id = x := by
  constructor
  · intro h
    have hx := List.find?_some h
    exact ⟨List.mem_of_find?_eq_some h, of_decide_eq_true hx⟩
  · rintro ⟨hmem, rfl⟩
    cases hl : r.lookup lc.id with
    | none => exact absurd (List.mem_map_of_mem hmem) (LanguageRegistry.lookup_eq_none hl)
    | some other =>
      have hother := List.find?_some hl
      have hid : other.id = lc.id := of_decide_eq_true hother
      rw [List.inj_on_of_nodup_map r.nodup (List.mem_of_find?_eq_some hl) hmem hid]

/-- Two ids that are the same entry's or nobody's are looked up with one result. -/
theorem LanguageRegistry.lookup_congr {r : LanguageRegistry}
    (h : ∀ lc ∈ r.byId, lc.id = x ↔ lc.id = y) : r.lookup x = r.lookup y := by
  apply Option.ext
  intro lc
  rw [r.lookup_eq_some_iff, r.lookup_eq_some_iff]
  exact and_congr_right fun hlc => h lc hlc

variable {m : LetterCase}

theorem map_lower_eq_iff {s t : List Char} (h : List.Forall₂ m.recased s t)
    (hl : ∀ c ∈ l, m.Steady c) : s.map m.lower = l ↔ t.map m.lower = l := by
  induction h generalizing l with
  | nil => exact Iff.rfl
  | cons hcd _ ih =>
    cases l with
    | nil => exact iff_of_false (List.cons_ne_nil _ _) (List.cons_ne_nil _ _)
    | cons c l =>
      rw [List.map_cons, List.map_cons, List.cons_eq_cons, List.cons_eq_cons,
        hl c List.mem_cons_self _ _ hcd, ih fun c hc => hl c (List.mem_cons_of_mem _ hc)]

/-- Alike texts are looked up alike where the letters of the ids are steady. -/
theorem LanguageRegistry.getBy_of_alike {r : LanguageRegistry} (h : m.Alike s t)
    (hr : ∀ lc ∈ r.byId, ∀ c ∈ lc.id.toList, m.Steady c) :
    r.getBy m.toCaseMap s = r.getBy m.toCaseMap t := by
  apply LanguageRegistry.lookup_congr
  intro lc hlc
  have hiff := map_lower_eq_iff h (hr lc hlc)
  rw [eq_comm, @eq_comm _ lc.id, CaseMap.toLower, CaseMap.toLower, ← String.toList_inj,
    ← String.toList_inj, String.toList_ofList, String.toList_ofList]
  exact hiff

/-- Every configuration of the file is found by its id, and neither the case of letters nor the
white space around an id makes a difference. -/
structure LanguagesReachable (m : LetterCase) (languages : List LanguageConfig)
    (r : LanguageRegistry) : Prop where
  every : ∀ lc ∈ languages, r.getBy m.toCaseMap lc.id = some lc
  alike : ∀ s t, m.Alike s t → r.getBy m.toCaseMap s = r.getBy m.toCaseMap t

theorem CaseMap.trimmed_of_normal {m : CaseMap} (h : m.toLower (trimSpace s) = s) :
    trimSpace s = s := by
  have ht := m.trim_toLower (trimSpace s)
  rwa [h, trimSpace, trimSpace, Text.trim_trim, ← trimSpace, h] at ht

theorem CaseMap.lower_replaced {m : CaseMap} {pre post : List Char}
    (h : ∀ x ∈ pre ++ c :: post, m.lower x = x) :
    m.toLower (String.ofList (pre ++ d :: post)) = String.ofList (pre ++ c :: post) ↔
      m.lower d = c := by
  rw [List.forall_mem_append, List.forall_mem_cons] at h
  have hpre : pre.map m.lower = pre := (List.map_congr_left h.1).trans (List.map_id _)
  have hpost : post.map m.lower = post := (List.map_congr_left h.2.2).trans (List.map_id _)
  rw [CaseMap.toLower, ← String.toList_inj, String.toList_ofList, String.toList_ofList,
    String.toList_ofList, List.map_append, List.map_cons, hpre, hpost, List.append_right_inj,
    List.cons_eq_cons, and_iff_left rfl]

/-- An id in which one character is replaced by another of the same kind needs no trimming. -/
theorem trimSpace_replaced {pre post : List Char} (hd : goSpace d = goSpace c)
    (h : trimSpace (String.ofList (pre ++ c :: post)) = String.ofList (pre ++ c :: post)) :
    trimSpace (String.ofList (pre ++ d :: post)) = String.ofList (pre ++ d :: post) := by
  apply Text.trim_eq_self_of_spaces _ h
  rw [String.toList_ofList, String.toList_ofList, List.map_append, List.map_append, List.map_cons,
    List.map_cons, hd]

theorem LetterCase.alike_replaced {pre post : List Char} (hr : m.recased d d')
    (hd : trimSpace (String.ofList (pre ++ d :: post)) = String.ofList (pre ++ d :: post))
    (hd' : trimSpace (String.ofList (pre ++ d' :: post)) = String.ofList (pre ++ d' :: post)) :
    m.Alike (String.ofList (pre ++ d :: post)) (String.ofList (pre ++ d' :: post)) := by
  have hsame (l : List Char) : List.Forall₂ m.recased l l :=
    List.forall₂_same.2 fun c _ => m.refl c
  rw [LetterCase.Alike, hd, hd', String.toList_ofList, String.toList_ofList]
  exact List.rel_append (hsame pre) (.cons hr (hsame post))

theorem LanguagesReachable.steady {languages : List LanguageConfig}
    (h : LanguagesReachable m languages r) (hlc : lc ∈ r.byId)
    (hid : m.toLower (trimSpace lc.id) = lc.id) (hc : c ∈ lc.id.toList) : m.Steady c := by
  obtain ⟨pre, post, hsplit⟩ := List.append_of_mem hc
  have heq : lc.id = String.ofList (pre ++ c :: post) := by
    rw [← hsplit, String.ofList_toList]
  have htrim := CaseMap.trimmed_of_normal hid
  have hlower : ∀ x ∈ pre ++ c :: post, m.lower x = x := by
    rw [htrim] at hid
    exact hsplit ▸ (m.toLower_eq_self_iff lc.id).1 hid
  rw [heq] at htrim
  -- a replacement that is looked up like the id has a letter with the same lower case
  have hone (x y : Char) (hx : goSpace x = goSpace c) (hy : goSpace y = goSpace c)
      (hget : r.getBy m.toCaseMap (String.ofList (pre ++ x :: post)) =
        r.getBy m.toCaseMap (String.ofList (pre ++ y :: post))) (hxc : m.lower x = c) :
      m.lower y = c := by
    rw [LanguageRegistry.getBy, LanguageRegistry.getBy, trimSpace_replaced hx htrim,
      trimSpace_replaced hy htrim, (CaseMap.lower_replaced hlower).2 hxc, ← heq] at hget
    have hself : r.lookup lc.id = some lc := r.lookup_eq_some_iff.2 ⟨hlc, rfl⟩
    have hfound := (r.lookup_eq_some_iff.1 (hget.symm.trans hself)).2
    exact (CaseMap.lower_replaced hlower).1 (hfound.symm.trans heq)
  intro d d' hr
  have hspace := m.space_recased d d' hr
  constructor
  · intro hdc
    have hd : goSpace d = goSpace c := by rw [← hdc, m.space]
    have hd' := hspace.trans hd
    apply hone d d' hd hd' _ hdc
    exact h.alike _ _ (LetterCase.alike_replaced hr (trimSpace_replaced hd htrim)
      (trimSpace_replaced hd' htrim))
  · intro hdc
    have hd' : goSpace d' = goSpace c := by rw [← hdc, m.space]
    have hd := hspace.symm.trans hd'
    apply hone d' d hd' hd _ hdc
    exact (h.alike _ _ (LetterCase.alike_replaced hr (trimSpace_replaced hd htrim)
      (trimSpace_replaced hd' htrim))).symm

theorem LanguagesReachable.normal {languages : List LanguageConfig}
    (h : LanguagesReachable m languages r) (hlc : lc ∈ languages) :
    m.toLower (trimSpace lc.id) = lc.id :=
  (r.lookup_eq_some_iff.1 (h.every lc hlc)).2.symm

theorem LanguagesReachable.of_steady
    (hids : ∀ lc ∈ r.byId, m.toLower (trimSpace lc.id) = lc.id ∧ ∀ c ∈ lc.id.toList, m.Steady c) :
    LanguagesReachable m r.byId r := by
  constructor
  · intro lc hlc
    rw [LanguageRegistry.getBy, (hids lc hlc).1]
    exact r.lookup_eq_some_iff.2 ⟨hlc, rfl⟩
  · exact fun s t hst => LanguageRegistry.getBy_of_alike hst fun lc hlc => (hids lc hlc).2

/-- A file that is loaded makes all of its languages reachable exactly if every id is lower-case and
trimmed and made of steady letters. -/
theorem languages_reachable_iff {languages : List LanguageConfig}
    (h : loadLanguageFile path (.file languages) = .ok r) :
    LanguagesReachable m languages r ↔
      ∀ lc ∈ languages, m.toLower (trimSpace lc.id) = lc.id ∧ ∀ c ∈ lc.id.toList, m.Steady c := by
  have hby := loadLanguageFile_byId h
  subst hby
  constructor
  · intro hreach lc hlc
    have hid := hreach.normal hlc
    exact ⟨hid, fun c hc => hreach.steady hlc hid hc⟩
  · exact LanguagesReachable.of_steady

/-- The changes of case that leave the lower case as it is. -/
def CaseMap.folding (m : CaseMap) : LetterCase where
  toCaseMap := m
  recased := fun c d => m.lower c = m.lower d
  refl := fun _ => rfl
  space_recased := by
    intro c d h
    rw [← m.space c, ← m.space d, h]

theorem CaseMap.folding_steady (m : CaseMap) (c : Char) : m.folding.Steady c := by
  intro d d' h
  rw [show m.folding.lower d = m.folding.lower d' from h]

theorem cConfig_loaded :
    ∃ r, loadLanguageFile "languages.json" (.file [cConfig]) = .ok r :=
  ⟨_, rfl⟩

theorem languages_reachable_c :
    ∃ r, loadLanguageFile "languages.json" (.file [cConfig]) = .ok r ∧
      LanguagesReachable goCaseMap.folding [cConfig] r := by
  obtain ⟨r, hload⟩ := cConfig_loaded
  refine ⟨r, hload, (languages_reachable_iff hload).2 ?_⟩
  intro lc hlc
  rw [List.mem_singleton.1 hlc]
  exact ⟨by decide +kernel, fun c _ => goCaseMap.folding_steady c⟩

/-- The language of this id is loaded, but not found. -/
def upperConfig : LanguageConfig := { cConfig with id := "CPP" }

theorem upperConfig_loaded :
    ∃ r, loadLanguageFile "languages.json" (.file [upperConfig]) = .ok r ∧
      r.getBy goCaseMap "CPP" = none :=
  ⟨_, rfl, by decide +kernel⟩

theorem languages_unreachable :
    ¬ ∀ (m : LetterCase) (path : String) (languages : List LanguageConfig) (r : LanguageRegistry),
      loadLanguageFile path (.file languages) = .ok r → LanguagesReachable m languages r := by
  intro h
  obtain ⟨r, hload, hnone⟩ := upperConfig_loaded
  have hfound := (h goCaseMap.folding _ _ r hload).every upperConfig List.mem_cons_self
  cases hnone.symm.trans hfound

theorem shippedRegistry_normal :
    ∀ lc ∈ shippedRegistry.byId, toLower (trimSpace lc.id) = lc.id := by
  decide +kernel

/-- The languages that are shipped are all found. -/
theorem shipped_reachable :
    LanguagesReachable goCaseMap.folding shippedRegistry.byId shippedRegistry := by
  apply LanguagesReachable.of_steady
  intro lc hlc
  exact ⟨shippedRegistry_normal lc hlc, fun c _ => goCaseMap.folding_steady c⟩

end Leetrank
