import Leetrank.Library.JsValue
import Leetrank.Library.Threads
import Mathlib.Logic.Function.Basic
import Mathlib.Tactic.NormNum

namespace Leetrank.Editor
set_option autoImplicit true

open EventMachine Js Threads

inductive EditorTheme where
  | vsDark
  | vs
  | hcBlack
deriving DecidableEq

def EditorTheme.name : EditorTheme → String
  | .vsDark => "vs-dark"
  | .vs => "vs"
  | .hcBlack => "hc-black"

inductive TabWidth where
  | two
  | four
deriving DecidableEq

def TabWidth.toRat : TabWidth → ℚ
  | .two => 2
  | .four => 4

structure EditorPrefs where
  vimMode : Bool
  theme : EditorTheme
  fontSize : Number
  tabWidth : TabWidth
  wordWrap : Bool
deriving DecidableEq

def EDITOR_PREFS_KEY : String := "leetrank.editor.prefs"

def defaultEditorPrefs : EditorPrefs := ⟨false, .vsDark, .finite 14, .two, false⟩

def fontSizeMin : Int := 12
def fontSizeMax : Int := 22

def validThemes : List EditorTheme := [.vsDark, .vs, .hcBlack]

/-- A field of an object, `none` being `undefined`. -/
def field (fields : List (String × Value)) (key : String) : Option Value := fields.lookup key

def isTrue : Option Value → Bool
  | some (.bool b) => b
  | _ => false

def normalizeTheme : Option Value → EditorTheme
  | some (.string s) =>
    (validThemes.find? fun theme => units theme.name = s).getD defaultEditorPrefs.theme
  | _ => defaultEditorPrefs.theme

/-- `Math.round` and the bounds of the slider. -/
def normalizeFontSize : Option Value → Number
  | some (.number (.finite q)) => .finite (min fontSizeMax (max fontSizeMin ⌊q + 1 / 2⌋) : Int)
  | _ => defaultEditorPrefs.fontSize

def normalizeTabWidth : Option Value → TabWidth
  | some (.number x) => if x = .finite 4 then .four else .two
  | _ => .two

def normalizeEditorPrefs : Option Value → EditorPrefs
  | some (.object fields) =>
    { vimMode := isTrue (field fields "vimMode")
      theme := normalizeTheme (field fields "theme")
      fontSize := normalizeFontSize (field fields "fontSize")
      tabWidth := normalizeTabWidth (field fields "tabWidth")
      wordWrap := isTrue (field fields "wordWrap") }
  -- an array has none of the fields
  | _ => defaultEditorPrefs

def EditorPrefs.value (p : EditorPrefs) : Value :=
  .object [("vimMode", .bool p.vimMode), ("theme", .string (units p.theme.name)),
    ("fontSize", .number p.fontSize), ("tabWidth", .number (.finite p.tabWidth.toRat)),
    ("wordWrap", .bool p.wordWrap)]

/-- What is stored under the key: what the hook has written, or another text, which may not be
JSON. -/
inductive StoredItem where
  | written (p : EditorPrefs)
  | other (parsed : Option Value)

/-- The item that the preferences are written as; no number but a finite one can be. -/
def writtenItem (p : EditorPrefs) : StoredItem :=
  match p.fontSize with
  | .finite _ => .written p
  | _ => .written { p with fontSize := .nan }

def readItem : Option StoredItem → EditorPrefs
  | none => defaultEditorPrefs
  | some (.written p) => normalizeEditorPrefs (some p.value.throughJson)
  | some (.other none) => defaultEditorPrefs
  | some (.other (some v)) => normalizeEditorPrefs (some v)

/-- Whether an item is there already, so that to write it tells nobody. -/
def isStored : Option StoredItem → StoredItem → Bool
  | some (.written p), .written q => p = q
  | _, _ => false

/-- The storage that the documents share, and the keys of the events that each of them has yet to
hear of; clearing the storage has no key. -/
structure EditorStorage where
  item : Option StoredItem
  pending : Nat → List (Option String)

def EditorStorage.readEditorPrefs (s : EditorStorage) : EditorPrefs := readItem s.item

/-- All documents but the one in which a change was made are told of it. -/
def EditorStorage.tell (s : EditorStorage) (key : Option String) (source : Option Nat) :
    Nat → List (Option String) :=
  fun j => if source = some j then s.pending j else s.pending j ++ [key]

/-- A write by one tab, of which the others are told if it changes the item. -/
def EditorStorage.writeEditorPrefs (s : EditorStorage) (i : Nat) (p : EditorPrefs) :
    EditorStorage :=
  if isStored s.item (writtenItem p) then s
  else ⟨some (writtenItem p), s.tell (some EDITOR_PREFS_KEY) (some i)⟩

structure EditorTab where
  prefs : EditorPrefs
  mounted : Bool

structure PartialPrefs where
  vimMode : Option Bool
  theme : Option EditorTheme
  fontSize : Option Number
  tabWidth : Option TabWidth
  wordWrap : Option Bool

def EditorPrefs.merge (prev : EditorPrefs) (next : PartialPrefs) : EditorPrefs where
  vimMode := next.vimMode.getD prev.vimMode
  theme := next.theme.getD prev.theme
  fontSize := next.fontSize.getD prev.fontSize
  tabWidth := next.tabWidth.getD prev.tabWidth
  wordWrap := next.wordWrap.getD prev.wordWrap

/-- The steps of a tab; a write may be refused by the browser. -/
inductive TabEvent where
  | mount
  | unmount
  | onStorage
  | setPrefs (next : PartialPrefs) (accepted : Bool)
  | reset (accepted : Bool)

/-- The preferences of a tab are changed, and written if the browser accepts that. -/
def EditorStorage.change (s : EditorStorage) (i : Nat) (p : EditorPrefs) (accepted : Bool) :
    EditorStorage × EditorTab :=
  (if accepted then s.writeEditorPrefs i p else s, ⟨p, true⟩)

def tabStep (s : EditorStorage) (i : Nat) (tab : EditorTab) :
    TabEvent → Option (EditorStorage × EditorTab)
  | .mount => if tab.mounted then none else some (s, ⟨s.readEditorPrefs, true⟩)
  | .unmount => if tab.mounted then some (s, ⟨defaultEditorPrefs, false⟩) else none
  | .onStorage =>
    match s.pending i with
    | [] => none
    | key :: rest =>
      some ({ s with pending := Function.update s.pending i rest },
        if tab.mounted ∧ key = some EDITOR_PREFS_KEY then ⟨s.readEditorPrefs, true⟩ else tab)
  | .setPrefs next accepted =>
    if tab.mounted then some (s.change i (tab.prefs.merge next) accepted) else none
  | .reset accepted =>
    if tab.mounted then some (s.change i defaultEditorPrefs accepted) else none

/-- What other code does with the storage, in the document of a tab or in another one. -/
inductive Foreign where
  | put (item : Option StoredItem) (source : Option Nat)
  | clear (source : Option Nat)
  | otherKey (key : String) (source : Option Nat)

def EditorStorage.foreign (s : EditorStorage) : Foreign → EditorStorage
  | .put item source => ⟨item, s.tell (some EDITOR_PREFS_KEY) source⟩
  | .clear source => ⟨none, s.tell none source⟩
  | .otherKey key source => { s with pending := s.tell (some key) source }

def editorProgram : Program EditorStorage EditorTab Unit Foreign TabEvent where
  start := fun _ _ => ⟨defaultEditorPrefs, false⟩
  ambient := EditorStorage.foreign
  step := tabStep

def editorTabs : Machine (World EditorStorage EditorTab) (Event Unit Foreign TabEvent) :=
  editorProgram.machine fun _ => True

/-- Bounds that every preference read from the storage is within. -/
def EditorPrefs.Valid (p : EditorPrefs) : Prop :=
  ∃ n : Int, fontSizeMin ≤ n ∧ n ≤ fontSizeMax ∧ p.fontSize = .finite n

/-- What the preferences come back as. -/
def EditorPrefs.readBack (p : EditorPrefs) : EditorPrefs :=
  normalizeEditorPrefs (some p.value.throughJson)

def TabEvent.Accepted : TabEvent → Prop
  | .setPrefs _ accepted | .reset accepted => accepted = true
  | .mount | .unmount | .onStorage => True

/-- A change of the item that a document hears of, as it does not of its own and of one that clears
the storage. -/
def Foreign.HeardBy (i : Nat) : Foreign → Prop
  | .put _ source => source ≠ some i
  | .clear _ => False
  | .otherKey _ _ => True

/-- The writes of a tab are accepted, and it hears of what other code does. -/
def Follows (i : Nat) : Event Unit Foreign TabEvent → Prop
  | .spawn _ => True
  | .ambient x => x.HeardBy i
  | .act j x => j = i → x.Accepted

variable {p : EditorPrefs} {s s' : EditorStorage} {tab tab' other : EditorTab} {i j : Nat}
  {e : TabEvent} {x : Foreign}

theorem defaultEditorPrefs_valid : defaultEditorPrefs.Valid :=
  ⟨14, by decide, by decide, by simp [defaultEditorPrefs]⟩

theorem normalizeFontSize_valid (v : Option Value) :
    ∃ n : Int, fontSizeMin ≤ n ∧ n ≤ fontSizeMax ∧ normalizeFontSize v = .finite n := by
  unfold normalizeFontSize
  split
  next q =>
    refine ⟨min fontSizeMax (max fontSizeMin ⌊q + 1 / 2⌋), ?_, ?_, rfl⟩
    · exact le_min (by decide) (le_max_left ..)
    · exact min_le_left ..
  next => exact defaultEditorPrefs_valid

theorem normalizeEditorPrefs_valid (v : Option Value) : (normalizeEditorPrefs v).Valid := by
  unfold normalizeEditorPrefs
  split
  next => exact normalizeFontSize_valid _
  next => exact defaultEditorPrefs_valid

theorem readItem_valid (item : Option StoredItem) : (readItem item).Valid := by
  unfold readItem
  split
  next => exact defaultEditorPrefs_valid
  next => exact normalizeEditorPrefs_valid _
  next => exact defaultEditorPrefs_valid
  next => exact normalizeEditorPrefs_valid _

theorem normalizeFontSize_whole (h₁ : fontSizeMin ≤ n) (h₂ : n ≤ fontSizeMax) :
    normalizeFontSize (some (.number (.finite (n : Int)))) = .finite n := by
  have hfloor : ⌊(n : ℚ) + 1 / 2⌋ = n := by
    rw [Int.floor_intCast_add, Int.floor_eq_zero_iff.2 ⟨by norm_num, by norm_num⟩, Int.add_zero]
  rw [normalizeFontSize, hfloor, max_eq_right h₁, min_eq_right h₂]

theorem normalizeTheme_name (theme : EditorTheme) :
    normalizeTheme (some (.string (units theme.name))) = theme := by
  cases theme <;> rfl

theorem normalizeTabWidth_toRat (width : TabWidth) :
    normalizeTabWidth (some (.number (.finite width.toRat))) = width := by
  cases width with
  | two => rw [normalizeTabWidth, TabWidth.toRat, if_neg (by decide)]
  | four => rw [normalizeTabWidth, TabWidth.toRat, if_pos rfl]

/-- Preferences within the bounds come back as they were written. -/
theorem EditorPrefs.Valid.readBack (h : p.Valid) : p.readBack = p := by
  obtain ⟨n, hmin, hmax, hfont⟩ := h
  obtain ⟨vimMode, theme, fontSize, tabWidth, wordWrap⟩ := p
  dsimp only at hfont
  subst hfont
  change EditorPrefs.mk vimMode (normalizeTheme (some (.string (units theme.name))))
    (normalizeFontSize (some (.number (.finite n))))
    (normalizeTabWidth (some (.number (.finite tabWidth.toRat)))) wordWrap = _
  rw [normalizeTheme_name, normalizeFontSize_whole hmin hmax, normalizeTabWidth_toRat]

theorem readItem_written (p : EditorPrefs) : readItem (some (writtenItem p)) = p.readBack := by
  rw [writtenItem]
  split
  next => rfl
  next hnot =>
    obtain ⟨vimMode, theme, fontSize, tabWidth, wordWrap⟩ := p
    cases fontSize with
    | finite q => exact absurd rfl (hnot q)
    | nan | posInfinity | negInfinity => rfl

theorem isStored_eq (h : isStored item (writtenItem p) = true) : item = some (writtenItem p) := by
  unfold isStored at h
  split at h
  next q r heq =>
    rw [heq, of_decide_eq_true h]
  next => cases h

/-- A tab that has heard of everything shows what is stored. -/
def Heard (s : EditorStorage) (i : Nat) (tab : EditorTab) : Prop :=
  tab.mounted = true → some EDITOR_PREFS_KEY ∉ s.pending i →
    tab.prefs.readBack = s.readEditorPrefs

theorem EditorStorage.readEditorPrefs_valid (s : EditorStorage) : s.readEditorPrefs.Valid :=
  readItem_valid s.item

theorem EditorStorage.write_read (s : EditorStorage) (i : Nat) (p : EditorPrefs) :
    (s.writeEditorPrefs i p).readEditorPrefs = p.readBack := by
  rw [EditorStorage.writeEditorPrefs]
  split
  next h => rw [EditorStorage.readEditorPrefs, isStored_eq h, readItem_written]
  next => exact readItem_written p

theorem EditorStorage.mem_tell (s : EditorStorage) (key : Option String)
    (h : source ≠ some i) : key ∈ s.tell key source i := by
  rw [EditorStorage.tell, if_neg h]
  exact List.mem_append_right _ (List.mem_singleton_self key)

theorem EditorStorage.pending_sublist (s : EditorStorage) (key : Option String)
    (source : Option Nat) (i : Nat) : (s.pending i).Sublist (s.tell key source i) := by
  rw [EditorStorage.tell]
  split
  · exact .refl _
  · exact List.sublist_append_left _ _

/-- A write leaves the other tabs as they were, or they have yet to hear of it. -/
theorem EditorStorage.write_other (s : EditorStorage) (p : EditorPrefs) (hji : j ≠ i) :
    s.writeEditorPrefs i p = s ∨ some EDITOR_PREFS_KEY ∈ (s.writeEditorPrefs i p).pending j := by
  rw [EditorStorage.writeEditorPrefs]
  split
  next => exact .inl rfl
  next => exact .inr (s.mem_tell _ fun h => hji (Option.some.inj h).symm)

theorem Heard.of_item (h : Heard s i tab) (hitem : s'.item = s.item)
    (hpending : some EDITOR_PREFS_KEY ∈ s.pending i → some EDITOR_PREFS_KEY ∈ s'.pending i) :
    Heard s' i tab := by
  intro hmounted hquiet
  rw [EditorStorage.readEditorPrefs, hitem]
  exact h hmounted (mt hpending hquiet)

theorem heard_foreign (h : Heard s i tab) (hx : x.HeardBy i) : Heard (s.foreign x) i tab := by
  cases x with
  | put item source => exact fun _ hquiet => absurd (s.mem_tell _ hx) hquiet
  | clear source => exact hx.elim
  | otherKey key source =>
    exact h.of_item rfl fun hmem => (s.pending_sublist _ source i).subset hmem

theorem heard_other_change (h : Heard s j tab) (hji : j ≠ i) :
    Heard (s.change i p accepted).1 j tab := by
  rw [EditorStorage.change]
  split
  · rcases s.write_other p hji with hsame | hmem
    · rw [hsame]
      exact h
    · exact fun _ hquiet => absurd hmem hquiet
  · exact h

/-- What another tab does is heard of, or leaves the item as it was. -/
theorem heard_other_step (hstep : tabStep s i tab e = some (s', tab')) (hji : j ≠ i)
    (h : Heard s j other) : Heard s' j other := by
  cases e with
  | mount =>
    rw [tabStep] at hstep
    split at hstep
    · cases hstep
    · cases hstep
      exact h
  | unmount =>
    rw [tabStep] at hstep
    split at hstep
    · cases hstep
      exact h
    · cases hstep
  | onStorage =>
    rw [tabStep] at hstep
    split at hstep
    · cases hstep
    · cases hstep
      refine h.of_item rfl fun hmem => ?_
      change _ ∈ Function.update s.pending i _ j
      rwa [Function.update_of_ne hji]
  | setPrefs next accepted | reset accepted =>
    rw [tabStep] at hstep
    split at hstep
    · cases hstep
      exact heard_other_change h hji
    · cases hstep

theorem heard_change (s : EditorStorage) (i : Nat) (p : EditorPrefs) :
    Heard (s.change i p true).1 i (s.change i p true).2 :=
  fun _ _ => (s.write_read i p).symm

/-- A tab reads what is stored, or writes what it shows from then on. -/
theorem heard_own_step (hstep : tabStep s i tab e = some (s', tab')) (he : e.Accepted)
    (h : Heard s i tab) : Heard s' i tab' := by
  cases e with
  | mount =>
    rw [tabStep] at hstep
    split at hstep
    · cases hstep
    · cases hstep
      exact fun _ _ => s.readEditorPrefs_valid.readBack
  | unmount =>
    rw [tabStep] at hstep
    split at hstep
    · cases hstep
      exact fun hmounted => nomatch hmounted
    · cases hstep
  | onStorage =>
    rw [tabStep] at hstep
    split at hstep
    · cases hstep
    · rename_i key rest hpending
      cases hstep
      intro hmounted hquiet
      change _ ∉ Function.update s.pending i rest i at hquiet
      rw [Function.update_self] at hquiet
      change EditorPrefs.readBack (EditorTab.prefs _) = s.readEditorPrefs
      by_cases hkey : tab.mounted ∧ key = some EDITOR_PREFS_KEY
      · rw [if_pos hkey]
        exact s.readEditorPrefs_valid.readBack
      · rw [if_neg hkey] at hmounted ⊢
        refine h hmounted ?_
        rw [hpending, List.mem_cons, not_or]
        exact ⟨fun heq => hkey ⟨hmounted, heq.symm⟩, hquiet⟩
  | setPrefs next accepted | reset accepted =>
    cases he
    rw [tabStep] at hstep
    split at hstep
    · cases hstep
      exact heard_change s i _
    · cases hstep

/-- One tab, once there is a tab of that number, has been told of what it does not show. -/
def TabHeard (i : Nat) (w : World EditorStorage EditorTab) : Prop :=
  ∀ tab, w.threads[i]? = some tab → Heard w.shared i tab

theorem tabHeard_preserved (i : Nat) :
    editorTabs.Preserves (fun _ e _ => Follows i e) (TabHeard i) := by
  intro w e w' hw hstep he tab' htab'
  rcases Program.next_thread_cases hstep htab' with ⟨htab, hnot⟩ | ⟨a, rfl, rfl⟩ |
    ⟨x, tab, rfl, htab, hown⟩
  · have hheard := hw tab' htab
    cases e with
    | spawn a =>
      cases hstep
      exact hheard
    | ambient x =>
      cases hstep
      exact heard_foreign hheard he
    | act j x =>
      obtain ⟨tab, s, tab₁, -, hs, rfl⟩ := Program.next_act hstep
      exact heard_other_step hs (fun hij => hnot x (hij ▸ rfl)) hheard
  · exact fun hmounted => nomatch hmounted
  · exact heard_own_step hown (he rfl) (hw tab htab)

/-- However the changes of the tabs, their events and what other code does with the storage
interleave, a tab that has heard of everything shows what is stored, as long as none of its own
writes was refused, no other code of its document has changed the item and nothing has cleared the
storage. What is read is within the bounds, whatever has been stored, and what is within them is
shown as it was written. -/
theorem editorTabs_agree (h₀ : editorTabs.init w₀) (hr : editorTabs.run w₀ es = some w) :
    w.shared.readEditorPrefs.Valid ∧
      ∀ (i : Nat) tab, (∀ e ∈ es, Follows i e) → w.threads[i]? = some tab →
        tab.mounted = true → some EDITOR_PREFS_KEY ∉ w.shared.pending i →
          tab.prefs.readBack = w.shared.readEditorPrefs ∧
            (tab.prefs.Valid → tab.prefs = w.shared.readEditorPrefs) := by
  refine ⟨w.shared.readEditorPrefs_valid, fun i tab hes htab hmounted hquiet => ?_⟩
  have hstart : TabHeard i w₀ := by
    intro tab htab
    rw [h₀.2] at htab
    cases htab
  have halways : editorTabs.Always (fun _ e _ => Follows i e) w₀ es :=
    Machine.always_of_events fun e he _ _ => hes e he
  have hheard := (tabHeard_preserved i).run hstart halways hr tab htab hmounted hquiet
  refine ⟨hheard, fun hvalid => ?_⟩
  rw [← hvalid.readBack]
  exact hheard

def noTabs : World EditorStorage EditorTab := ⟨⟨none, fun _ => []⟩, []⟩

/-- One of two tabs asks for letters that are too large, and the other one hears of it. -/
def largeLetters : List (Event Unit Foreign TabEvent) :=
  [.spawn (), .spawn (), .act 0 .mount, .act 1 .mount, .ambient (.otherKey "theme" none),
    .act 0 (.setPrefs ⟨none, none, some (.finite 30), none, none⟩ true), .act 1 .onStorage,
    .act 1 .onStorage]

theorem largeLetters_follows : ∀ e ∈ largeLetters, Follows 1 e := by
  intro e he
  simp only [largeLetters, List.mem_cons, List.not_mem_nil, or_false] at he
  rcases he with rfl | rfl | rfl | rfl | rfl | rfl | rfl | rfl
  · trivial
  · trivial
  · exact fun _ => trivial
  · exact fun _ => trivial
  · trivial
  · exact fun _ => rfl
  · exact fun _ => trivial
  · exact fun _ => trivial

theorem editorTabs_agree_largeLetters :
    ∃ (w : World EditorStorage EditorTab) (tab : EditorTab), w.threads[1]? = some tab ∧
      w.shared.item = some (.written { defaultEditorPrefs with fontSize := .finite 30 }) ∧
      tab.prefs.readBack = w.shared.readEditorPrefs := by
  obtain ⟨w, tab, hr, htab, hmounted, hquiet, hitem⟩ : ∃ w tab,
      editorTabs.run noTabs largeLetters = some w ∧ w.threads[1]? = some tab ∧
        tab.mounted = true ∧ w.shared.pending 1 = [] ∧
        w.shared.item = some (.written { defaultEditorPrefs with fontSize := .finite 30 }) :=
    ⟨_, _, rfl, rfl, rfl, rfl, rfl⟩
  have hnone : some EDITOR_PREFS_KEY ∉ w.shared.pending 1 := by
    rw [hquiet]
    exact List.not_mem_nil
  have hagree := (editorTabs_agree ⟨trivial, rfl⟩ hr).2 1 tab largeLetters_follows htab hmounted
    hnone
  exact ⟨w, tab, htab, hitem, hagree.1⟩

end Leetrank.Editor
