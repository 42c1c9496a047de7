import Mathlib
import AlignedSlots.Log.Level

/-!
# The grammar of levels

`Level.Spells` says which texts are a level: blanks, a word up to the case of ASCII letters, and blanks.
Nothing in it mentions how a text is read.  `Level.parse_eq_iff` is the grammar of the reader, in both
directions: a text that is read was put together so (`exists_trimBlank`), and blanks and capitals are lost
on the way to the table of words (`trimBlank_append`, `map_toLower_eq_iff`).

`CaseTwins` is about ASCII letters only.  So a character with the look of a letter is none, and it keeps a
text from being a level wherever it stands (`Level.Astray`).
-/

namespace AlignedSlots

/-! ## Blanks at the ends -/

/-- Nothing but blanks. -/
def AllBlank (cs : List Char) : Prop := ∀ c ∈ cs, isBlank c = true

section Blanks

variable {before cs rest after p q : List Char} {s : Char}

theorem AllBlank.of_subset (h : AllBlank cs) (hsub : p ⊆ cs) : AllBlank p := by
  intro c hc
  exact h c (hsub hc)

/-- Blanks at the ends do not show after the trim. -/
theorem trimBlank_append (hbefore : AllBlank before) (hafter : AllBlank after) :
    trimBlank (before ++ cs ++ after) = trimBlank cs := by
  unfold trimBlank
  rw [List.append_assoc, List.dropWhile_append_of_pos hbefore, List.dropWhile_append]
  split
  · next hempty =>
    -- Nothing but blanks: the trim at the front has taken those of the back, too.
    rw [List.isEmpty_iff.mp hempty, List.dropWhile_eq_nil_iff.mpr hafter]
  · rw [List.reverse_append, List.dropWhile_append_of_pos (hafter.of_subset (by simp))]

/-- What a trim drops is blank, and stood at the two ends. -/
theorem exists_trimBlank (cs : List Char) :
    ∃ before after, AllBlank before ∧ AllBlank after ∧ cs = before ++ trimBlank cs ++ after := by
  refine ⟨cs.takeWhile isBlank, ((cs.dropWhile isBlank).reverse.takeWhile isBlank).reverse, ?_, ?_, ?_⟩
  · intro c hc
    exact List.mem_takeWhile_imp hc
  · intro c hc
    exact List.mem_takeWhile_imp (List.mem_reverse.mp hc)
  · unfold trimBlank
    rw [List.append_assoc, ← List.reverse_append, List.takeWhile_append_dropWhile, List.reverse_reverse,
      List.takeWhile_append_dropWhile]

theorem trimBlank_eq_self (h : ∀ c ∈ cs, isBlank c = false) : trimBlank cs = cs := by
  have keep : ∀ {ds : List Char}, (∀ c ∈ ds, isBlank c = false) → ds.dropWhile isBlank = ds := by
    intro ds hds
    cases ds with
    | nil => rfl
    | cons d rest => exact List.dropWhile_cons_of_neg (by simp [hds d])
  unfold trimBlank
  rw [keep h, keep fun c hc => h c (List.mem_reverse.mp hc), List.reverse_reverse]

/-- A blank with more than blanks before it stands after the blanks at the front. -/
theorem AllBlank.exists_of_append_eq (h : AllBlank before) (hp : ¬ AllBlank p)
    (heq : before ++ rest = p ++ q) : ∃ p', rest = p' ++ q := by
  rcases List.append_eq_append_iff.mp heq with ⟨p', _, hrest⟩ | ⟨extra, hbefore, _⟩
  · exact ⟨p', hrest⟩
  · exact absurd (h.of_subset (by simp [hbefore])) hp

/-- A text without blanks and blanks after it have no blank with more than blanks after that. -/
theorem AllBlank.all_of_append_eq (h : AllBlank after) (hcs : ∀ c ∈ cs, isBlank c = false)
    (hs : isBlank s = true) (heq : cs ++ after = p ++ s :: q) : AllBlank q := by
  rcases List.append_eq_append_iff.mp heq with ⟨p', _, hafter⟩ | ⟨extra, hcs', htail⟩
  · exact h.of_subset (by simp [hafter])
  · cases extra with
    | nil =>
      have hafter : s :: q = after := htail
      exact h.of_subset (by simp [← hafter])
    | cons d extra =>
      obtain ⟨rfl, _⟩ := List.cons.inj htail
      have hnone := hcs s (by simp [hcs'])
      rw [hs] at hnone
      cases hnone

end Blanks

/-! ## The case of ASCII letters -/

/-- An ASCII letter in upper case. -/
def IsCapital (c : Char) : Prop := 65 ≤ c.toNat ∧ c.toNat ≤ 90

instance (c : Char) : Decidable (IsCapital c) := inferInstanceAs (Decidable (_ ∧ _))

/-- The same character, or the two cases of one ASCII letter. -/
def CaseTwins (c d : Char) : Prop :=
  c = d ∨ (IsCapital c ∧ d.toNat = c.toNat + 32) ∨ (IsCapital d ∧ c.toNat = d.toNat + 32)

instance (c d : Char) : Decidable (CaseTwins c d) := inferInstanceAs (Decidable (_ ∨ _))

/-- An ASCII letter. -/
def IsLetter (c : Char) : Prop := IsCapital c ∨ (97 ≤ c.toNat ∧ c.toNat ≤ 122)

instance (c : Char) : Decidable (IsLetter c) := inferInstanceAs (Decidable (_ ∨ _))

section Letters

variable {c d : Char} {cs ds : List Char}

theorem toLower_toNat (c : Char) :
    c.toLower.toNat = if 65 ≤ c.toNat ∧ c.toNat ≤ 90 then c.toNat + 32 else c.toNat := by
  have hbounds : (c.val ≥ 'A'.val ∧ c.val ≤ 'Z'.val) ↔ (65 ≤ c.toNat ∧ c.toNat ≤ 90) := by
    simp only [ge_iff_le, UInt32.le_iff_toNat_le]
    exact Iff.rfl
  unfold Char.toLower
  by_cases h : 65 ≤ c.toNat ∧ c.toNat ≤ 90
  · rw [dif_pos (hbounds.mpr h), if_pos h]
    show (c.val + ('a'.val - 'A'.val)).toNat = c.toNat + 32
    have hle := h.2
    rw [UInt32.toNat_add, show ('a'.val - 'A'.val).toNat = 32 by decide]
    exact Nat.mod_eq_of_lt (by show c.toNat + 32 < 2 ^ 32; omega)
  · rw [dif_neg (fun hval => h (hbounds.mp hval)), if_neg h]

/-- Two characters are one in lower case iff they differ at most in the case of an ASCII letter. -/
theorem toLower_eq_iff : c.toLower = d.toLower ↔ CaseTwins c d := by
  rw [CaseTwins, ← Char.toNat_inj, ← Char.toNat_inj, toLower_toNat, toLower_toNat]
  unfold IsCapital
  split_ifs <;> omega

theorem map_toLower_eq_iff : cs.map Char.toLower = ds.map Char.toLower ↔ List.Forall₂ CaseTwins cs ds := by
  rw [← List.forall₂_eq_eq_eq, List.forall₂_map_left_iff, List.forall₂_map_right_iff]
  simp only [toLower_eq_iff]

theorem CaseTwins.refl (c : Char) : CaseTwins c c := .inl rfl

theorem CaseTwins.isLetter (h : CaseTwins c d) (hd : IsLetter d) : IsLetter c := by
  unfold CaseTwins IsCapital at h
  unfold IsLetter IsCapital at *
  rcases h with rfl | h | h <;> omega

/-- No ASCII letter is blank. -/
theorem IsLetter.nonblank (h : IsLetter c) : isBlank c = false := by
  unfold IsLetter IsCapital at h
  simp only [isBlank, blankCodes, List.contains_eq_mem, List.mem_cons, List.not_mem_nil, or_false,
    decide_eq_false_iff_not]
  omega

/-- Characters that differ in case are both blank or both not. -/
theorem CaseTwins.isBlank_eq (h : CaseTwins c d) : isBlank c = isBlank d := by
  rcases h with rfl | ⟨hc, heq⟩ | ⟨hd, heq⟩
  · rfl
  · have hd : IsLetter d := .inr (by unfold IsCapital at hc; omega)
    rw [IsLetter.nonblank (.inl hc), hd.nonblank]
  · have hc : IsLetter c := .inr (by unfold IsCapital at hd; omega)
    rw [hc.nonblank, IsLetter.nonblank (.inl hd)]

theorem isBlank_toLower (c : Char) : isBlank c.toLower = isBlank c := by
  refine CaseTwins.isBlank_eq ?_
  by_cases h : IsCapital c
  · exact .inr (.inr ⟨h, (toLower_toNat c).trans (if_pos h)⟩)
  · exact .inl (Char.toNat_inj.mp ((toLower_toNat c).trans (if_neg h)))

/-- The trim does not see the case of letters. -/
theorem map_toLower_trimBlank (cs : List Char) :
    (trimBlank cs).map Char.toLower = trimBlank (cs.map Char.toLower) := by
  have hblank : isBlank ∘ Char.toLower = isBlank := funext isBlank_toLower
  simp only [trimBlank, List.dropWhile_map, hblank, ← List.map_reverse]

end Letters

namespace Level

/-! ## Words and their spellings -/

/-- The words for the levels. -/
inductive Named : String → Level → Prop
  | off : Named "off" off
  | none : Named "none" off
  | error : Named "error" error
  | warn : Named "warn" warn
  | warning : Named "warning" warn
  | info : Named "info" info
  | debug : Named "debug" debug
  | trace : Named "trace" trace

/-- The text is a word for the level, but for blanks at its ends and the case of ASCII letters. -/
def Spells (text : String) (level : Level) : Prop :=
  ∃ before body after word, text.toList = before ++ body ++ after ∧ AllBlank before ∧ AllBlank after ∧
    List.Forall₂ CaseTwins body word.toList ∧ Named word level

/-- What a text can have that keeps it from being a level. -/
inductive Astray (text : String) : Prop
  /-- It has nothing but blanks. -/
  | blank (h : AllBlank text.toList)
  /-- It has a character that is neither blank nor an ASCII letter. -/
  | strange (c : Char) (hmem : c ∈ text.toList) (hblank : isBlank c = false) (hletter : ¬ IsLetter c)
  /-- It has a blank between others that are not. -/
  | inner (p q : List Char) (s : Char) (heq : text.toList = p ++ s :: q) (hs : isBlank s = true)
      (hp : ¬ AllBlank p) (hq : ¬ AllBlank q)

variable {text text' word : String} {level level' : Level} {cs : List Char}

/-- A word is made of ASCII letters in lower case, and it has at least one. -/
theorem Named.letters (h : Named word level) :
    word.toList ≠ [] ∧ ∀ c ∈ word.toList, IsLetter c ∧ c.toLower = c := by
  cases h <;> simp [IsLetter]

theorem Named.map_toLower (h : Named word level) : word.toList.map Char.toLower = word.toList := by
  have hid : ∀ c ∈ word.toList, c.toLower = id c := fun c hc => (h.letters.2 c hc).2
  rw [List.map_congr_left hid, List.map_id]

/-- The characters of a spelling are ASCII letters. -/
theorem Named.letters_of_twins (h : Named word level) (htwins : List.Forall₂ CaseTwins cs word.toList) :
    ∀ c ∈ cs, IsLetter c := by
  intro c hc
  obtain ⟨i, hi, rfl⟩ := List.getElem_of_mem hc
  have hlength := htwins.length_eq
  exact (htwins.get hi (hlength ▸ hi)).isLetter (h.letters.2 _ (List.getElem_mem _)).1

theorem ofWord?_eq_some_iff : ofWord? cs = some level ↔ ∃ word, Named word level ∧ cs = word.toList := by
  constructor
  · intro h
    obtain ⟨w, hfind, rfl⟩ := Option.map_eq_some_iff.mp h
    have heq := List.find?_eq_some_iff_append.mp hfind |>.1
    refine ⟨w.1, ?_, (beq_iff_eq.mp heq).symm⟩
    have hmem := List.mem_of_find?_eq_some hfind
    simp only [words, List.mem_cons, List.not_mem_nil, or_false] at hmem
    rcases hmem with rfl | rfl | rfl | rfl | rfl | rfl | rfl | rfl <;> constructor
  · rintro ⟨word, hnamed, rfl⟩
    cases hnamed <;> decide

/-! ## What is read -/

theorem parse_eq_ok_iff :
    parse text = .ok level ↔ ofWord? ((trimBlank text.toList).map Char.toLower) = some level := by
  unfold parse
  cases ofWord? ((trimBlank text.toList).map Char.toLower) <;> simp

theorem parse_spells (h : parse text = .ok level) : Spells text level := by
  obtain ⟨word, hnamed, hlower⟩ := ofWord?_eq_some_iff.mp (parse_eq_ok_iff.mp h)
  obtain ⟨before, after, hbefore, hafter, htext⟩ := exists_trimBlank text.toList
  refine ⟨before, _, after, word, htext, hbefore, hafter, ?_, hnamed⟩
  rw [← map_toLower_eq_iff, hlower, hnamed.map_toLower]

theorem Spells.parse_eq (h : Spells text level) : parse text = .ok level := by
  obtain ⟨before, body, after, word, htext, hbefore, hafter, htwins, hnamed⟩ := h
  -- Letters are not blank, so the trim stops at the word.
  have hbody : trimBlank body = body :=
    trimBlank_eq_self fun c hc => (hnamed.letters_of_twins htwins c hc).nonblank
  refine parse_eq_ok_iff.mpr (ofWord?_eq_some_iff.mpr ⟨word, hnamed, ?_⟩)
  rw [htext, trimBlank_append hbefore hafter, hbody, map_toLower_eq_iff.mpr htwins, hnamed.map_toLower]

/-- **Exactly the spellings of a level are read as this level.** -/
theorem parse_eq_iff : parse text = .ok level ↔ Spells text level :=
  ⟨parse_spells, Spells.parse_eq⟩

theorem Spells.unique (h : Spells text level) (h' : Spells text level') : level = level' := by
  have heq := h.parse_eq.symm.trans h'.parse_eq
  injection heq

/-- Whatever is no level is answered as it was given. -/
theorem parse_of_no_level (h : ∀ level, ¬ Spells text level) : parse text = .error ⟨text⟩ := by
  cases hparse : parse text with
  | ok level => exact absurd (parse_spells hparse) (h level)
  | error e =>
    unfold parse at hparse
    split at hparse
    · cases hparse
    · exact hparse.symm

/-- Blanks at the ends do not matter. -/
theorem parse_padded {before after : String} (hbefore : AllBlank before.toList)
    (hafter : AllBlank after.toList) :
    parse (before ++ text ++ after) = .ok level ↔ parse text = .ok level := by
  rw [parse_eq_ok_iff, parse_eq_ok_iff, String.toList_append, String.toList_append,
    trimBlank_append hbefore hafter]

/-- The case of ASCII letters does not matter. -/
theorem parse_case (h : List.Forall₂ CaseTwins text.toList text'.toList) :
    parse text = .ok level ↔ parse text' = .ok level := by
  rw [parse_eq_ok_iff, parse_eq_ok_iff, map_toLower_trimBlank, map_toLower_trimBlank,
    map_toLower_eq_iff.mpr h]

theorem spells_word (level : Level) : Spells level.word level := by
  refine ⟨[], level.word.toList, [], level.word, by simp, by simp [AllBlank], by simp [AllBlank],
    List.forall₂_same.mpr fun c _ => .refl c, ?_⟩
  cases level <;> constructor

/-- All that stands in a spelling is a blank or an ASCII letter. -/
theorem Spells.letters (h : Spells text level) {c : Char} (hc : c ∈ text.toList) :
    isBlank c = true ∨ IsLetter c := by
  obtain ⟨before, body, after, word, htext, hbefore, hafter, htwins, hnamed⟩ := h
  rw [htext, List.append_assoc, List.mem_append, List.mem_append] at hc
  rcases hc with hc | hc | hc
  · exact .inl (hbefore c hc)
  · exact .inr (hnamed.letters_of_twins htwins c hc)
  · exact .inl (hafter c hc)

/-- A text that has gone astray is no level. -/
theorem Astray.not_spells (h : Astray text) (level : Level) : ¬ Spells text level := by
  intro hspells
  obtain ⟨before, body, after, word, htext, hbefore, hafter, htwins, hnamed⟩ := id hspells
  have hletters := hnamed.letters_of_twins htwins
  cases h with
  | blank hblank =>
    cases body with
    | nil => exact hnamed.letters.1 (List.forall₂_nil_left_iff.mp htwins)
    | cons c rest =>
      have hc := hblank c (by simp [htext])
      rw [(hletters c List.mem_cons_self).nonblank] at hc
      cases hc
  | strange c hmem hblank hletter =>
    rcases hspells.letters hmem with hc | hc
    · rw [hblank] at hc
      cases hc
    · exact hletter hc
  | inner p q s heq hs hp hq =>
    -- The blank stands behind the first blanks, and not in the word; so it is one of the last.
    rw [htext, List.append_assoc] at heq
    obtain ⟨p', htail⟩ := hbefore.exists_of_append_eq hp heq
    exact hq (hafter.all_of_append_eq (fun c hc => (hletters c hc).nonblank) hs htail)

/-- A dotless `i` is no ASCII letter. -/
example : parse "ınfo" = .error ⟨"ınfo"⟩ ∧ ¬ IsLetter 'ı' := by decide

theorem Spells.ofSetting_eq (h : Spells text level) : ofSetting (some text) = level := by
  simp only [ofSetting, h.parse_eq]

/-- A setting that is absent or no level leaves the default. -/
theorem ofSetting_of_no_level {value : Option String}
    (h : ∀ text level, value = some text → ¬ Spells text level) : ofSetting value = warn := by
  cases value with
  | none => rfl
  | some text => simp only [ofSetting, parse_of_no_level fun level => h text level rfl, default]

/-! ## The reader keeps to the grammar -/

/-- **A reader of levels that keeps to their grammar**, and the choice of a level by a setting. -/
structure KeepsGrammar (read : String → Except Unknown Level) (choose : Option String → Level) :
    Prop where
  /-- A level is read exactly from its spellings. -/
  ok_iff : ∀ text level, read text = .ok level ↔ Spells text level
  /-- No text is a spelling of two levels. -/
  unique : ∀ text level level', Spells text level → Spells text level' → level = level'
  /-- Every other text is refused, with a message that holds it untrimmed. -/
  refused : ∀ text, (∀ level, ¬ Spells text level) →
    ∃ e, read text = .error e ∧ e.message = "unknown log level `" ++ text ++ "`"
  /-- Blank texts, characters that are no ASCII letters, and blanks inside are among those refused. -/
  astray : ∀ text, Astray text → ∀ level, read text ≠ .ok level
  /-- Blanks at the ends change nothing. -/
  padded : ∀ before text after level, AllBlank before.toList → AllBlank after.toList →
    (read (before ++ text ++ after) = .ok level ↔ read text = .ok level)
  /-- The case of ASCII letters changes nothing. -/
  case : ∀ text text' level, List.Forall₂ CaseTwins text.toList text'.toList →
    (read text = .ok level ↔ read text' = .ok level)
  /-- The word for a level is read as this level. -/
  word : ∀ level : Level, read level.word = .ok level
  /-- A setting that spells a level chooses it. -/
  chosen : ∀ text level, Spells text level → choose (some text) = level
  /-- Every other setting, and none at all, chooses `warn`. -/
  fallback : ∀ value, (∀ text level, value = some text → ¬ Spells text level) → choose value = warn

/-- **Levels are read by their grammar**, from every text. -/
theorem parse_keeps_grammar : KeepsGrammar parse ofSetting where
  ok_iff _ _ := parse_eq_iff
  unique _ _ _ := Spells.unique
  refused text h := ⟨⟨text⟩, parse_of_no_level h, rfl⟩
  astray _ h level hparse := h.not_spells level (parse_spells hparse)
  padded _ _ _ _ := parse_padded
  case _ _ _ := parse_case
  word level := (spells_word level).parse_eq
  chosen _ _ := Spells.ofSetting_eq
  fallback _ := ofSetting_of_no_level

/-- A padded word in mixed case is read, and chosen by a setting; with a blank inside it is refused. -/
theorem parse_keeps_grammar_padded :
    Spells " WaRn\t" warn ∧ parse " WaRn\t" = .ok warn ∧ ofSetting (some " WaRn\t") = warn ∧
      Astray "in fo" ∧ parse "in fo" ≠ .ok info ∧ ofSetting none = warn := by
  have hspells : Spells " WaRn\t" warn := by
    refine ⟨[' '], ['W', 'a', 'R', 'n'], ['\t'], "warn", by decide, ?_, ?_, ?_, .warn⟩
    · simp [AllBlank, isBlank, blankCodes]
    · simp [AllBlank, isBlank, blankCodes]
    · simp [CaseTwins, IsCapital]
  have hastray : Astray "in fo" := by
    refine .inner ['i', 'n'] ['f', 'o'] ' ' (by decide) (by decide) ?_ ?_
    all_goals simp [AllBlank, isBlank, blankCodes]
  exact ⟨hspells, (parse_keeps_grammar.ok_iff _ _).mpr hspells, parse_keeps_grammar.chosen _ _ hspells,
    hastray, parse_keeps_grammar.astray _ hastray info,
    parse_keeps_grammar.fallback none fun _ _ h => nomatch h⟩

end Level

end AlignedSlots
