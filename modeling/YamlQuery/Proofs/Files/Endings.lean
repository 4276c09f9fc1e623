import YamlQuery.Files.Document

/-!
# Proofs.Files.Endings — what the end of a path says

Behind the last slash of a path stands its last piece, and an ending without slashes that is more
than dots makes this piece the name of a file.  So the tests that look at the text of a path and
those that look at the extension of its name agree: in a path with a format, the extension is `gz`,
in small or capital letters, just if the text ends in `.gz` in small or capital letters
(`isCompressed_of_ofPath?`).
-/

namespace YamlQuery

namespace Text

variable {c : Char} {s b : List Char}

theorem splitOn_cons (c x : Char) (s : List Char) :
    splitOn [c] (x :: s) = if x = c then [] :: splitOn [c] s else consHead x (splitOn [c] s) := by
  have hstarts : [c].isPrefixOf (x :: s) ↔ x = c := by
    rw [List.isPrefixOf_iff_prefix, List.cons_prefix_cons]
    simp [eq_comm]
  simp only [splitOn, splitFrom, hstarts]
  rfl

theorem splitOn_of_not_mem : ∀ {s : List Char}, c ∉ s → splitOn [c] s = [s]
  | [], _ => rfl
  | x :: s, h => by
    obtain ⟨hx, hs⟩ := not_or.1 (mt List.mem_cons.2 h)
    rw [splitOn_cons, if_neg (Ne.symm hx), splitOn_of_not_mem hs]
    rfl

/-- What stands behind the last separator belongs to the last piece. -/
theorem exists_splitOn_append (hb : c ∉ b) : ∀ a : List Char,
    ∃ front w, splitOn [c] (a ++ b) = front ++ [w ++ b]
  | [] => ⟨[], [], splitOn_of_not_mem hb⟩
  | x :: a => by
    obtain ⟨front, w, h⟩ := exists_splitOn_append hb a
    rw [List.cons_append, splitOn_cons, h]
    by_cases hx : x = c
    · exact ⟨[] :: front, w, by rw [if_pos hx, List.cons_append]⟩
    · rw [if_neg hx]
      cases front with
      | nil => exact ⟨[], x :: w, rfl⟩
      | cons f front => exact ⟨(x :: f) :: front, w, rfl⟩

theorem lower_append (s t : List Char) : lower (s ++ t) = lower s ++ lower t := List.map_append

theorem toNat_toLower (x : Char) :
    x.toLower.toNat = if 65 ≤ x.toNat ∧ x.toNat ≤ 90 then x.toNat + 32 else x.toNat := by
  have hrange : (x.val ≥ 'A'.val ∧ x.val ≤ 'Z'.val) ↔ 65 ≤ x.toNat ∧ x.toNat ≤ 90 := Iff.rfl
  unfold Char.toLower
  simp only [hrange]
  split
  · next h =>
    show (x.val + 32).toNat = x.val.toNat + 32
    have hval : x.val.toNat ≤ 90 := h.2
    rw [UInt32.toNat_add]
    exact Nat.mod_eq_of_lt (by simp; omega)
  · rfl

theorem isBlank_toLower (x : Char) : isBlank x.toLower = isBlank x := by
  simp only [isBlank, toNat_toLower]
  split
  · rw [Bool.eq_iff_iff]
    simp
    omega
  · rfl

/-- What is no letter is the small form of itself alone. -/
theorem toLower_eq_iff (hc : c.toNat < 65) {x : Char} : x.toLower = c ↔ x = c := by
  rw [← Char.toNat_inj, ← Char.toNat_inj, toNat_toLower]
  split <;> omega

theorem mem_lower_iff (hc : c.toNat < 65) : c ∈ lower s ↔ c ∈ s := by
  simp only [lower, List.mem_map, toLower_eq_iff hc, exists_eq_right]

/-- A text whose small form is cut at a character that is no letter is cut there itself. -/
theorem exists_of_lower_eq {a b : List Char} (hc : c.toNat < 65) (h : lower s = a ++ c :: b) :
    ∃ a' b', s = a' ++ c :: b' ∧ lower a' = a ∧ lower b' = b := by
  obtain ⟨a', t, rfl, ha, ht⟩ := List.map_eq_append_iff.1 h
  obtain ⟨x, b', rfl, hx, hb⟩ := List.map_eq_cons_iff.1 ht
  obtain rfl := (toLower_eq_iff hc).1 hx
  exact ⟨a', b', rfl, ha, hb⟩

end Text

namespace Path

variable {path : String} {a b stem ext : List Char}

theorem exists_pieces (hpath : path.toList = a ++ b) (hslash : '/' ∉ b) :
    ∃ front w, pieces path = front ++ [w ++ b] := by
  rw [pieces, hpath]
  exact Text.exists_splitOn_append hslash a

theorem upToName_append (front : List (List Char)) {name : List Char} (h : isIdle name = false) :
    upToName (front ++ [name]) = front ++ [name] := by
  simp [upToName, h]

/-- What ends with more than dots is no piece of dots. -/
theorem append_ne_dots (hdots : ∃ c ∈ b, c ≠ '.') (w : List Char) {dots : List Char}
    (hall : ∀ c ∈ dots, c = '.') : w ++ b ≠ dots := by
  obtain ⟨c, hc, hdot⟩ := hdots
  rintro rfl
  exact hdot (hall c (List.mem_append_right w hc))

theorem append_ne_up (hdots : ∃ c ∈ b, c ≠ '.') (w : List Char) : w ++ b ≠ ['.', '.'] :=
  append_ne_dots hdots w (by simp)

theorem isIdle_append (hdots : ∃ c ∈ b, c ≠ '.') (w : List Char) : isIdle (w ++ b) = false := by
  rw [isIdle, Bool.or_eq_false_iff, beq_eq_false_iff_ne, beq_eq_false_iff_ne]
  exact ⟨append_ne_dots hdots w (by simp), append_ne_dots hdots w (by simp)⟩

/-- A path with an ending that is more than dots ends with a name. -/
theorem exists_fileName? (hpath : path.toList = a ++ b) (hslash : '/' ∉ b)
    (hdots : ∃ c ∈ b, c ≠ '.') : ∃ w, fileName? path = some (w ++ b) := by
  obtain ⟨front, w, hpieces⟩ := exists_pieces hpath hslash
  have hup : (w ++ b != ['.', '.']) = true := bne_iff_ne.2 (append_ne_up hdots w)
  refine ⟨w, ?_⟩
  rw [fileName?, hpieces, upToName_append front (isIdle_append hdots w), List.getLast?_concat,
    Option.filter_some, if_pos hup]

theorem takeWhile_behind (hext : '.' ∉ ext) (stem : List Char) :
    (stem ++ '.' :: ext).reverse.takeWhile (· != '.') = ext.reverse := by
  have hall : ∀ c ∈ ext.reverse, (c != '.') = true := by
    intro c hc
    rw [bne_iff_ne]
    rintro rfl
    exact hext (List.mem_reverse.1 hc)
  rw [List.reverse_append, List.reverse_cons, List.append_assoc,
    List.takeWhile_append_of_pos hall]
  simp

theorem drop_behind (stem ext : List Char) :
    (stem ++ '.' :: ext).reverse.drop ext.reverse.length = '.' :: stem.reverse := by
  rw [List.reverse_append, List.reverse_cons, List.append_assoc, List.drop_left]
  rfl

theorem cutExtension?_append (hstem : stem ≠ []) (hext : '.' ∉ ext) :
    cutExtension? (stem ++ '.' :: ext) = some (stem, ext) := by
  simp only [cutExtension?, takeWhile_behind hext, drop_behind, List.reverse_reverse]
  cases hrev : stem.reverse with
  | nil => exact absurd (List.reverse_eq_nil_iff.1 hrev) hstem
  | cons c before => simp only [← hrev, List.reverse_reverse]

theorem cutExtension?_of_dot (hext : '.' ∉ ext) : cutExtension? ('.' :: ext) = none := by
  have hbehind := takeWhile_behind hext []
  have hdrop := drop_behind [] ext
  rw [List.nil_append] at hbehind hdrop
  simp only [cutExtension?, hbehind, hdrop, List.reverse_nil]

theorem extension?_of_hidden (hpath : path.toList = a ++ '.' :: ext) (hslash : '/' ∉ ext)
    (hext : '.' ∉ ext) (hne : ext ≠ []) : extension? path = some ext ∨ extension? path = none := by
  obtain ⟨c, hc⟩ := List.exists_mem_of_ne_nil ext hne
  have hdots : ∃ c ∈ '.' :: ext, c ≠ '.' :=
    ⟨c, List.mem_cons_of_mem _ hc, fun heq => hext (heq ▸ hc)⟩
  obtain ⟨w, hname⟩ := exists_fileName? hpath (by simp [hslash]) hdots
  rw [extension?, hname, Option.bind_some]
  by_cases hw : w = []
  · rw [hw, List.nil_append, cutExtension?_of_dot hext]
    exact .inr rfl
  · rw [cutExtension?_append hw hext]
    exact .inl rfl

/-- What stands behind the last dot is the extension, if a name goes on before the dot. -/
theorem extension?_append {c : Char} (hpath : path.toList = a ++ c :: '.' :: ext) (hc : c ≠ '/')
    (hslash : '/' ∉ ext) (hext : '.' ∉ ext) (hne : ext ≠ []) : extension? path = some ext := by
  obtain ⟨x, hx⟩ := List.exists_mem_of_ne_nil ext hne
  have hdots : ∃ x ∈ c :: '.' :: ext, x ≠ '.' := ⟨x, by simp [hx], fun heq => hext (heq ▸ hx)⟩
  obtain ⟨w, hname⟩ := exists_fileName? hpath (by simp [hslash, hc.symm]) hdots
  have hstem : w ++ c :: '.' :: ext = (w ++ [c]) ++ '.' :: ext := by simp
  rw [extension?, hname, Option.bind_some, hstem, cutExtension?_append (by simp) hext]
  rfl

end Path

/-! ### Formats and compression -/

namespace DocumentFormat

variable {path : String} {f : DocumentFormat}

/-- The path ends like that of a compressed file, but with a capital letter. -/
def hasCapitalEnd (path : String) : Bool :=
  compressedEnd.isSuffixOf (Text.lower path.toList) && !compressedEnd.isSuffixOf path.toList

theorem compressedEnd_eq : compressedEnd = ['.', 'g', 'z'] := by decide

theorem isSuffixOf_lower {s : List Char} (h : compressedEnd.isSuffixOf s) :
    compressedEnd.isSuffixOf (Text.lower s) := by
  obtain ⟨t, rfl⟩ := List.isSuffixOf_iff_suffix.1 h
  exact List.isSuffixOf_iff_suffix.2 ⟨Text.lower t, by rw [Text.lower_append]; rfl⟩

/-- What stands behind the last dot in a path with a format, apart from `.gz`. -/
def endings : List (List Char) := ["json".toList, "yaml".toList, "yml".toList]

theorem of_mem_endings : ∀ e ∈ endings, '/' ∉ e ∧ '.' ∉ e ∧ e ≠ [] ∧ e ≠ ['g', 'z'] := by decide

theorem exists_of_ofPath? (h : ofPath? path = some f) : ∃ a, ∃ e ∈ endings,
    withoutEnd compressedEnd (Text.lower path.toList) = a ++ '.' :: e := by
  have hsuffix (e : List Char) (he : e ∈ endings) (s : List Char)
      (h : ('.' :: e).isSuffixOf s = true) : ∃ a, ∃ e ∈ endings, s = a ++ '.' :: e := by
    obtain ⟨a, ha⟩ := List.isSuffixOf_iff_suffix.1 h
    exact ⟨a, e, he, ha.symm⟩
  simp only [ofPath?] at h
  split at h
  · next hjson => exact hsuffix "json".toList (by decide) _ hjson
  · split at h
    · next hyaml =>
      rcases Bool.or_eq_true_iff.1 hyaml with hyaml | hyml
      · exact hsuffix "yaml".toList (by decide) _ hyaml
      · exact hsuffix "yml".toList (by decide) _ hyml
    · cases h

/-- A path with a format ends with a dot and one of the endings, and perhaps `.gz` behind it. -/
theorem exists_ending (h : ofPath? path = some f) : ∃ a e z, path.toList = a ++ '.' :: (e ++ z) ∧
    Text.lower e ∈ endings ∧ (z = [] ∨ ∃ g, z = '.' :: g ∧ Text.lower g = ['g', 'z']) ∧
    (compressedEnd.isSuffixOf (Text.lower path.toList) = !z.isEmpty) := by
  obtain ⟨a, e, he, heq⟩ := exists_of_ofPath? h
  rw [withoutEnd] at heq
  split at heq
  · next hgz =>
    obtain ⟨t, ht⟩ := List.isSuffixOf_iff_suffix.1 hgz
    rw [← ht, List.length_append, Nat.add_sub_cancel, List.take_left] at heq
    rw [compressedEnd_eq] at ht
    obtain ⟨p, g, hpath, hp, hg⟩ := Text.exists_of_lower_eq (by decide) ht.symm
    obtain ⟨a', e', rfl, -, he'⟩ := Text.exists_of_lower_eq (by decide) (hp.trans heq)
    exact ⟨a', e', '.' :: g, by simp [hpath], he' ▸ he, .inr ⟨g, rfl, hg⟩, hgz⟩
  · next hgz =>
    obtain ⟨a', e', hpath, -, he'⟩ := Text.exists_of_lower_eq (by decide) heq
    exact ⟨a', e', [], by simp [hpath], he' ▸ he, .inl rfl, Bool.eq_false_iff.2 hgz⟩

/-- A path with a format does not end with a blank. -/
theorem exists_last (h : ofPath? path = some f) :
    ∃ s c, path.toList = s ++ [c] ∧ Text.isBlank c = false := by
  obtain ⟨a, e, z, hpath, he, hz, -⟩ := exists_ending h
  have hplain : endings.all fun e => (e ++ ['.', 'g', 'z']).all fun c => !Text.isBlank c := by
    decide
  have hlower : ∀ c ∈ Text.lower (e ++ z), Text.isBlank c = false := by
    intro c hc
    rw [← Bool.not_eq_true']
    refine List.all_eq_true.1 (List.all_eq_true.1 hplain _ he) c ?_
    rw [Text.lower_append] at hc
    rcases hz with rfl | ⟨g, rfl, hg⟩
    · exact List.mem_append_left _ ((List.mem_append.1 hc).resolve_right nofun)
    · rwa [← hg]
  have hne : e ++ z ≠ [] := by
    intro hnil
    rw [(List.append_eq_nil_iff.1 hnil).1] at he
    exact absurd he (by decide)
  refine ⟨a ++ '.' :: (e ++ z).dropLast, (e ++ z).getLast hne, ?_, ?_⟩
  · rw [hpath, List.append_assoc, List.cons_append, List.dropLast_concat_getLast]
  · rw [← Text.isBlank_toLower]
    exact hlower _ (List.mem_map_of_mem (List.getLast_mem hne))

end DocumentFormat

open DocumentFormat (compressedEnd of_mem_endings exists_ending)

/-- In a path with a format, the extension of the name and the end of the text agree on whether the
file is a compressed one. -/
theorem Files.isCompressed_of_ofPath? {path : String} {f : DocumentFormat}
    (h : DocumentFormat.ofPath? path = some f) :
    isCompressed path = compressedEnd.isSuffixOf (Text.lower path.toList) := by
  obtain ⟨a, e, z, hpath, he, hz, hgz⟩ := exists_ending h
  obtain ⟨hslash, hdot, hne, hplain⟩ := of_mem_endings _ he
  rw [Text.mem_lower_iff (by decide)] at hslash hdot
  have hne : e ≠ [] := fun hnil => hne (congrArg Text.lower hnil)
  rw [hgz, isCompressed]
  rcases hz with rfl | ⟨g, rfl, hg⟩
  · rw [List.append_nil] at hpath
    rcases Path.extension?_of_hidden hpath hslash hdot hne with hext | hext
    · simpa [hext] using hplain
    · simp [hext]
  · obtain ⟨e, c, rfl⟩ : ∃ e' c, e = e' ++ [c] :=
      ⟨_, _, (List.dropLast_concat_getLast hne).symm⟩
    have hg' : '/' ∉ Text.lower g ∧ '.' ∉ Text.lower g ∧ Text.lower g ≠ [] := by
      rw [hg]
      decide
    rw [Text.mem_lower_iff (by decide), Text.mem_lower_iff (by decide)] at hg'
    have hext : Path.extension? path = some g := by
      refine Path.extension?_append (a := a ++ '.' :: e) (c := c) (by simp [hpath]) ?_ hg'.1
        hg'.2.1 (fun hnil => hg'.2.2 (congrArg Text.lower hnil))
      rintro rfl
      exact hslash (by simp)
    simp [hext, hg]

end YamlQuery
