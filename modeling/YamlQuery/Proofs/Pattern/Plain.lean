import YamlQuery.KeyPath.Basic
import YamlQuery.Proofs.Pattern.Spans

/-!
# Proofs.Pattern.Plain — segments that stand for one key

A segment without pattern characters is a row of signs, each a character with or without a backslash
before it.  As a pattern it is read sign by sign (`Pattern.Reading.run?_signs`), and it matches the
key that is made of these characters, and no other (`KeyPath.isMatch_literal`).

There is one exception: a backslash before an angle bracket does not write the bracket but a place
where a word starts or ends.  A segment with such a sign never matches the key it stands for.
-/

namespace YamlQuery

namespace Segment

/-! ### Signs -/

/-- A character of a segment, with or without a backslash before it. -/
structure Sign where
  escaped : Bool
  char : Char

namespace Sign

/-- The text that writes the sign. -/
def text (s : Sign) : List Char := if s.escaped then ['\\', s.char] else [s.char]

/-- An angle bracket behind a backslash, which is a place at a word. -/
def isAngle (s : Sign) : Bool := s.escaped && (s.char == '<' || s.char == '>')

/-- The sign stands in a segment without pattern characters. -/
def Plain : Sign → Prop
  | ⟨true, c⟩ => isPunctuation c
  | ⟨false, c⟩ => c ≠ '\\' ∧ isPatternChar c = false

end Sign

/-- The signs of a segment. -/
def signs : List Char → List Sign
  | [] => []
  | '\\' :: c :: s => ⟨true, c⟩ :: signs s
  | c :: s => ⟨false, c⟩ :: signs s

/-- There is an angle bracket behind a backslash. -/
def hasAngle (raw : List Char) : Bool := (signs raw).any (·.isAngle)

/-- The characters of some signs, but for angle brackets behind backslashes. -/
def written (ss : List Sign) : List Char := (ss.filter (!·.isAngle)).map (·.char)

theorem signs_cons {c : Char} (h : c ≠ '\\') (s : List Char) :
    signs (c :: s) = ⟨false, c⟩ :: signs s := by
  cases s <;> simp [signs, h]

/-- A segment without pattern characters stands for the characters of its signs. -/
theorem eq_of_literalChars? {raw ks : List Char} (h : literalChars? raw = some ks) :
    ks = (signs raw).map (·.char) ∧ (signs raw).flatMap Sign.text = raw ∧
      ∀ s ∈ signs raw, s.Plain := by
  fun_induction literalChars? raw generalizing ks with
  | case1 => simp_all [signs]
  | case2 c s hc ih =>
    obtain ⟨ls, hls, rfl⟩ := Option.map_eq_some_iff.1 h
    obtain ⟨rfl, htext, hplain⟩ := ih hls
    refine ⟨rfl, ?_, List.forall_mem_cons.2 ⟨hc, hplain⟩⟩
    rw [signs, List.flatMap_cons, htext]
    rfl
  | case3 => cases h
  | case4 => cases h
  | case5 c s hne hc ih =>
    obtain ⟨ls, hls, rfl⟩ := Option.map_eq_some_iff.1 h
    obtain ⟨rfl, htext, hplain⟩ := ih hls
    rw [Bool.not_eq_true, Bool.or_eq_false_iff, beq_eq_false_iff_ne] at hc
    rw [signs_cons hc.1, List.flatMap_cons, htext]
    exact ⟨rfl, rfl, List.forall_mem_cons.2 ⟨hc, hplain⟩⟩

theorem length_signs_le (raw : List Char) : (signs raw).length ≤ raw.length := by
  fun_induction signs raw with
  | case1 => exact Nat.le_refl 0
  | case2 c s ih =>
    simp only [List.length_cons]
    omega
  | case3 c s _ ih =>
    simp only [List.length_cons]
    omega

end Segment

/-! ### Reading signs -/

namespace Pattern

open Segment

variable {sets : NamedSets}

/-- What a sign is in a pattern. -/
def signPart (s : Sign) : Part :=
  if s.isAngle then Reading.lookPart (if s.char == '<' then .wordStart false else .wordEnd false)
  else Reading.charPart {} s.char

theorem ofLetter?_eq_none {c : Char} (h : c.isAlphanum = false) (ascii : Bool) :
    CharSet.ofLetter? ascii c = none := by
  unfold CharSet.ofLetter?
  split
  iterate 3 exact absurd h (by decide)
  rfl

/-- Punctuation behind a backslash stands for itself, but for angle brackets. -/
theorem escape?_of_isPunctuation {c : Char} (h : isPunctuation c) (hl : c ≠ '<') (hr : c ≠ '>')
    (s : List Char) : escape? { sets } (c :: s) = some (.char c false, s) := by
  simp only [isPunctuation, Bool.and_eq_true, Bool.not_eq_true', decide_eq_true_eq] at h
  obtain ⟨⟨-, hle⟩, halnum⟩ := h
  have hne (d : Char) (hd : d.isAlphanum = true) : c ≠ d := by
    rintro rfl
    rw [halnum] at hd
    cases hd
  have hascii : c.toNat < 128 := by
    have hle : c.toNat ≤ '~'.toNat := hle
    exact Nat.lt_of_le_of_lt hle (by decide)
  have hescapable : isEscapable c = true := by simp [isEscapable, hascii, halnum, hl, hr]
  unfold escape?
  split
  case h_1 hs => cases hs
  case h_17 hs => exact absurd (List.cons.inj hs).1 hl
  case h_18 hs => exact absurd (List.cons.inj hs).1 hr
  case h_19 hs =>
    obtain ⟨rfl, rfl⟩ := List.cons.inj hs
    dsimp only
    rw [ofLetter?_eq_none halnum]
    simp [hne 'D' rfl, hne 'S' rfl, hne 'W' rfl, hescapable]
  all_goals
    next hs => exact absurd (List.cons.inj hs).1 (hne _ rfl)

namespace Reading

variable {r : Reading} {rest : List Char}

/-- A character that is no pattern character stands for itself. -/
theorem step?_char {c : Char} (hc : c ≠ '\\') (hp : isPatternChar c = false)
    (hr : r.rest = c :: rest) : r.step? = some (r.push (charPart r.flags c) rest) := by
  have hne : ∀ d ∈ ".^$*+?()[]\x7b\x7d|".toList, c ≠ d := by
    rintro d hd rfl
    rw [isPatternChar, List.contains_iff_mem.2 hd] at hp
    cases hp
  unfold step?
  rw [hr]
  dsimp only
  split
  case h_9 => exact absurd rfl hc
  case h_13 => rfl
  all_goals exact absurd rfl (hne _ (by decide))

theorem step?_sign {s : Sign} (hs : s.Plain) (hf : r.flags = { sets })
    (hr : r.rest = s.text ++ rest) : r.step? = some (r.push (signPart s) rest) := by
  obtain ⟨escaped, c⟩ := s
  cases escaped with
  | false =>
    have hpart : signPart ⟨false, c⟩ = charPart r.flags c := by rw [hf]; rfl
    rw [hpart]
    exact step?_char hs.1 hs.2 hr
  | true =>
    have hc : isPunctuation c := hs
    have hr : r.rest = '\\' :: c :: rest := hr
    unfold step?
    rw [hr]
    dsimp only
    rw [hf]
    by_cases hl : c = '<'
    · subst hl
      rfl
    · by_cases hg : c = '>'
      · subst hg
        rfl
      · rw [escape?_of_isPunctuation hc hl hg]
        simp [signPart, Sign.isAngle, hl, hg, atomPart?, charPart]

theorem run?_succ {next : Reading} (n : Nat) (hf : r.flags = { sets }) (hr : r.rest ≠ [])
    (h : r.step? = some next) : run? (n + 1) r = run? n next := by
  have hspace : passSpace r.flags r.rest = r.rest := by rw [hf]; rfl
  rw [run?]
  simp [hspace, hr, h]

theorem run?_signs (rest : List Char) : ∀ {ss : List Sign} {r : Reading} (n : Nat),
    (∀ s ∈ ss, s.Plain) → r.flags = { sets } → r.rest = ss.flatMap Sign.text ++ rest →
      run? (n + ss.length) r = run? n
        { r with
          rest
          level := { r.level with parts := (ss.map signPart).reverse ++ r.level.parts } }
  | [], r, n, _, _, hr => by
    obtain rfl : r.rest = rest := hr
    rfl
  | s :: ss, r, n, hss, hf, hr => by
    obtain ⟨hs, hss⟩ := List.forall_mem_cons.1 hss
    rw [List.flatMap_cons, List.append_assoc] at hr
    have hne : r.rest ≠ [] := by
      rw [hr, Sign.text]
      split <;> simp
    rw [List.length_cons, ← Nat.add_assoc, run?_succ _ hf hne (step?_sign hs hf hr),
      run?_signs rest n hss (r := r.push (signPart s) (ss.flatMap Sign.text ++ rest)) hf rfl]
    simp [push]

end Reading

/-- Signs one after another. -/
def signsRe (ss : List Sign) : Re := ss.foldr (fun s r => .cat (signPart s).re r) .empty

theorem sequence_signs (ss : List Sign) :
    (sequence (ss.map signPart).reverse).re = signsRe ss := by
  simp [sequence, signsRe, List.foldl_reverse, List.foldr_map]

/-- A part in a group that is not named. -/
def groupPart (p : Part) : Part :=
  { p with depth := p.depth + 1, room := p.room + 2 * stateRoom, repeatable := true }

/-- What the reader has got at the end of a segment without pattern characters. -/
theorem run?_patternText {raw ks : List Char} (h : literalChars? raw = some ks) :
    Reading.run? ((patternText raw).length + 1) (.start sets (patternText raw)) =
      some { rest := [], flags := { sets }, level := ⟨{ sets }, [], [Reading.lookPart .textEnd,
        groupPart (sequence ((signs raw).map signPart).reverse), Reading.lookPart .textStart]⟩ } := by
  obtain ⟨-, htext, hplain⟩ := eq_of_literalChars? h
  have hstar : raw ≠ ['*'] := by
    rintro rfl
    cases h
  have hpattern : patternText raw = '^' :: '(' :: '?' :: ':' :: (raw ++ [')', '$']) := by
    simp [patternText, hstar]
  obtain ⟨n, hn⟩ := Nat.exists_eq_add_of_le (length_signs_le raw)
  have hfuel : (patternText raw).length + 1 = n + 5 + (signs raw).length + 2 := by
    rw [hpattern]
    simp only [List.length_cons, List.length_append, List.length_nil]
    omega
  have hopen : Reading.run? ((patternText raw).length + 1) (.start sets (patternText raw)) =
      Reading.run? (n + 5 + (signs raw).length)
        { rest := raw ++ [')', '$'], flags := { sets }, level := ⟨{ sets }, [], []⟩
          outer := [⟨{ sets }, [], [Reading.lookPart .textStart]⟩] } := by
    rw [hfuel, hpattern]
    rfl
  rw [hopen, Reading.run?_signs [')', '$'] (n + 5) hplain rfl (by rw [htext]), List.append_nil]
  rfl

/-- The pattern of a segment without pattern characters is its signs, from the start of a key to the
end. -/
theorem read?_patternText {engine : Engine} {raw ks : List Char} {re : Re}
    (h : literalChars? raw = some ks) (hre : read? (patternText raw) engine = some re) :
    re = .cat (.look .textStart) (.cat (signsRe (signs raw)) (.cat (.look .textEnd) .empty)) := by
  rw [read?, run?_patternText h] at hre
  dsimp only at hre
  split at hre
  · rw [← Option.some_inj.1 hre, ← sequence_signs]
    rfl
  · cases hre

/-! ### What signs match -/

variable {ss : List Sign} {text : List Char} {i j : Nat}

theorem signPart_re (s : Sign) :
    (s.isAngle = true ∧ ∃ l, (signPart s).re = .look l) ∨
      s.isAngle = false ∧ (signPart s).re = .set (· == s.char) := by
  rw [signPart]
  split
  · next h => exact .inl ⟨h, _, rfl⟩
  · next h => exact .inr ⟨by simpa using h, rfl⟩

/-- What the signs match is the characters that they write. -/
theorem drop_of_spans : ∀ {ss : List Sign} {i : Nat}, (signsRe ss).Spans text i j →
    text.drop i = written ss ++ text.drop j
  | [], i, h => by
    obtain rfl : i = j := h
    rfl
  | s :: ss, i, ⟨k, hs, h⟩ => by
    have ih := drop_of_spans h
    obtain ⟨hangle, l, hre⟩ | ⟨hangle, hre⟩ := signPart_re s
    · rw [hre] at hs
      obtain rfl : i = k := hs.1
      rw [ih]
      simp [written, hangle]
    · rw [hre] at hs
      obtain ⟨rfl, hc⟩ := hs
      obtain ⟨c, hi, hc⟩ := (Option.any_eq_true _ _).1 hc
      obtain rfl := beq_iff_eq.1 hc
      obtain ⟨hlt, hget⟩ := List.getElem?_eq_some_iff.1 hi
      rw [List.drop_eq_getElem_cons hlt, hget, ih]
      simp [written, hangle]

/-- Signs without places at words match their characters. -/
theorem spans_of_drop : ∀ {ss : List Sign} {i : Nat}, (∀ s ∈ ss, s.isAngle = false) →
    i ≤ text.length → text.drop i = ss.map (·.char) → (signsRe ss).Spans text i text.length
  | [], i, _, hle, h => by
    have hlen : text.length - i = 0 := by simpa using congrArg List.length h
    show i = text.length
    omega
  | s :: ss, i, hss, hle, h => by
    obtain ⟨hs, hss⟩ := List.forall_mem_cons.1 hss
    have hlt : i < text.length := by
      by_contra hge
      rw [List.drop_eq_nil_of_le (Nat.le_of_not_lt hge)] at h
      cases h
    rw [List.drop_eq_getElem_cons hlt, List.map_cons] at h
    obtain ⟨hget, hdrop⟩ := List.cons.inj h
    obtain ⟨hangle, -⟩ | ⟨-, hre⟩ := signPart_re s
    · rw [hs] at hangle
      cases hangle
    · refine ⟨i + 1, ?_, spans_of_drop hss hlt hdrop⟩
      rw [hre]
      exact ⟨rfl, by simp [hlt, hget]⟩

/-- From the start of a text to the end. -/
theorem isMatch_whole_iff {r : Re} :
    (Re.cat (.look .textStart) (.cat r (.cat (.look .textEnd) .empty))).isMatch text ↔
      r.Spans text 0 text.length := by
  rw [Re.isMatch_iff]
  constructor
  · rintro ⟨i, j, -, _, ⟨rfl, hi, hstart⟩, k, hr, _, ⟨rfl, hk, hend⟩, -⟩
    have hi0 : i = 0 := by
      cases i with
      | zero => rfl
      | succ i =>
        have hnone : text[i]? = none := Option.isNone_iff_eq_none.1 hstart
        rw [List.getElem?_eq_none_iff] at hnone
        omega
    have hnone : text[k]? = none := Option.isNone_iff_eq_none.1 hend
    rw [List.getElem?_eq_none_iff] at hnone
    rwa [← hi0, Nat.le_antisymm hnone hk]
  · intro h
    refine ⟨0, text.length, Nat.zero_le _, 0, ⟨rfl, Nat.zero_le _, rfl⟩, _, h, _,
      ⟨rfl, Nat.le_refl _, ?_⟩, rfl⟩
    rw [List.getElem?_eq_none (Nat.le_refl _)]
    rfl

end Pattern

/-! ### Segments without pattern characters -/

namespace Segment

variable {engine : Pattern.Engine}

theorem raw_of_ofText? {raw : List Char} {s : Segment} (h : ofText? raw engine = some s) :
    s.raw.toList = raw ∧ Pattern.read? (patternText raw) engine = some s.pattern := by
  obtain ⟨re, hre, rfl⟩ := Option.map_eq_some_iff.1 h
  exact ⟨String.toList_ofList, hre⟩

/-- A key matches if it is what the signs of the segment match from its start to its end. -/
theorem isMatch_iff_spans {raw ks : List Char} {s : Segment} (h : ofText? raw engine = some s)
    (hk : literalChars? raw = some ks) (key : String) :
    s.isMatch key ↔ (Pattern.signsRe (signs raw)).Spans key.toList 0 key.toList.length := by
  rw [isMatch, Pattern.read?_patternText hk (raw_of_ofText? h).2, Pattern.isMatch_whole_iff]

/-- Only what the signs write can match. -/
theorem eq_written_of_isMatch {raw ks : List Char} {s : Segment} (h : ofText? raw engine = some s)
    (hk : literalChars? raw = some ks) {key : String} (hm : s.isMatch key) :
    key.toList = written (signs raw) := by
  have hdrop := Pattern.drop_of_spans ((isMatch_iff_spans h hk key).1 hm)
  rwa [List.drop_zero, List.drop_length, List.append_nil] at hdrop

theorem hasAngle_eq_false {raw : List Char} (h : hasAngle raw = false) :
    ∀ s ∈ signs raw, s.isAngle = false := by simpa [hasAngle] using h

/-- Without angle brackets behind backslashes, the signs write all their characters. -/
theorem written_eq_map {ss : List Sign} (h : ∀ s ∈ ss, s.isAngle = false) :
    written ss = ss.map (·.char) := by
  rw [written, List.filter_eq_self.2 fun s hs => by rw [h s hs]; rfl]

/-- With one, some character is missing. -/
theorem length_written_lt {raw : List Char} (h : hasAngle raw = true) :
    (written (signs raw)).length < (signs raw).length := by
  obtain ⟨s, hs, hangle⟩ := List.any_eq_true.1 h
  rw [written, List.length_map]
  exact List.length_filter_lt_length_iff_exists.2 ⟨s, hs, by simp [hangle]⟩

end Segment

namespace KeyPath

open Segment

variable {engine : Pattern.Engine}

/-- A text that is a path with a property, by evaluation. -/
theorem exists_parse (text delimiter : String) (P : KeyPath → Prop) [DecidablePred P]
    (h : (match KeyPath.parse text delimiter with
      | .ok p => decide (P p)
      | .error _ => false) = true) : ∃ p, KeyPath.parse text delimiter = .ok p ∧ P p := by
  split at h
  · next p hp => exact ⟨p, hp, of_decide_eq_true h⟩
  · cases h

theorem exists_ofText?_of_segmentsFrom : ∀ {raws : List (List Char)} {n : Nat} {ss : List Segment},
    segmentsFrom engine n raws = .ok ss → ∀ s ∈ ss, ∃ raw, ofText? raw engine = some s
  | [], n, ss, h, s, hs => by
    cases h
    cases hs
  | raw :: raws, n, ss, h, s, hs => by
    rw [segmentsFrom] at h
    split at h
    case h_2 => cases h
    case h_1 s' hs' =>
      split at h
      case h_2 => cases h
      case h_1 ss' hss' =>
        cases h
        obtain rfl | hs := List.mem_cons.1 hs
        · exact ⟨raw, hs'⟩
        · exact exists_ofText?_of_segmentsFrom hss' s hs

/-- The segments of a path are read from texts. -/
theorem exists_ofText?_of_parse {text delimiter : String} {path : KeyPath}
    (h : parse text delimiter engine = .ok path) :
    ∀ s ∈ path.segments, ∃ raw, ofText? raw engine = some s := by
  unfold parse at h
  dsimp only at h
  split at h
  · cases h
  split at h
  · cases h
  split at h
  · next hss =>
    cases h
    exact exists_ofText?_of_segmentsFrom hss
  · cases h

/-- **A segment without pattern characters matches the key it stands for, and no other**, unless it
has an angle bracket behind a backslash.  Then it does not match that key, and it matches at most the
key without these brackets. -/
theorem isMatch_literal {text delimiter : String} {path : KeyPath}
    (h : parse text delimiter engine = .ok path) {s : Segment} (hs : s ∈ path.segments) {k : String}
    (hk : s.literal? = some k) :
    (hasAngle s.raw.toList = false → ∀ key, s.isMatch key ↔ key = k) ∧
      (hasAngle s.raw.toList = true → s.isMatch k = false ∧
        ∀ key, s.isMatch key → key = String.ofList (written (signs s.raw.toList))) := by
  obtain ⟨raw, hraw⟩ := exists_ofText?_of_parse h s hs
  rw [literal?, (raw_of_ofText? hraw).1] at hk
  rw [(raw_of_ofText? hraw).1]
  obtain ⟨ks, hks, rfl⟩ := Option.map_eq_some_iff.1 hk
  obtain ⟨hsigns, -, -⟩ := eq_of_literalChars? hks
  constructor
  · intro hangle key
    have hnone := hasAngle_eq_false hangle
    constructor
    · intro hm
      rw [← String.ofList_toList (s := key), eq_written_of_isMatch hraw hks hm,
        written_eq_map hnone, hsigns]
    · rintro rfl
      rw [isMatch_iff_spans hraw hks, String.toList_ofList]
      exact Pattern.spans_of_drop hnone (Nat.zero_le _) (by rw [List.drop_zero, hsigns])
  · intro hangle
    refine ⟨?_, fun key hm => ?_⟩
    · by_contra hm
      have hlen := congrArg List.length
        (eq_written_of_isMatch hraw hks (Bool.eq_true_of_not_eq_false hm))
      have hlt := length_written_lt hangle
      rw [String.toList_ofList, hsigns, List.length_map] at hlen
      omega
    · rw [← eq_written_of_isMatch hraw hks hm, String.ofList_toList]

theorem isMatch_literal_braces :
    ∃ path, parse "/pet/\\\x7bpetId\\\x7d,\\<a" "," = .ok path ∧ ∃ s ∈ path.segments,
      s.literal? = some "/pet/\x7bpetId\x7d" ∧ hasAngle s.raw.toList = false ∧
      (∀ key, s.isMatch key ↔ key = "/pet/\x7bpetId\x7d") ∧ ∃ t ∈ path.segments,
      t.literal? = some "<a" ∧ hasAngle t.raw.toList = true ∧ t.isMatch "<a" = false ∧
      ∀ key, t.isMatch key → key = "a" := by
  obtain ⟨path, hpath, hfirst, hsecond⟩ := exists_parse "/pet/\\\x7bpetId\\\x7d,\\<a" ","
    (fun p =>
      (p.segments[0]?.any fun s =>
        s.literal? = some "/pet/\x7bpetId\x7d" && !hasAngle s.raw.toList) ∧
      p.segments[1]?.any fun s =>
        s.literal? = some "<a" && hasAngle s.raw.toList && written (signs s.raw.toList) == ['a'])
    (by decide +kernel)
  obtain ⟨s, hs, hprops⟩ := (Option.any_eq_true _ _).1 hfirst
  obtain ⟨t, ht, htprops⟩ := (Option.any_eq_true _ _).1 hsecond
  simp only [Bool.and_eq_true, decide_eq_true_eq, Bool.not_eq_true', beq_iff_eq] at hprops htprops
  obtain ⟨hk, hplain⟩ := hprops
  obtain ⟨⟨hl, hangle⟩, hwritten⟩ := htprops
  have hs := List.mem_of_getElem? hs
  have ht := List.mem_of_getElem? ht
  have hangled := (isMatch_literal hpath ht hl).2 hangle
  rw [hwritten] at hangled
  exact ⟨path, hpath, s, hs, hk, hplain, (isMatch_literal hpath hs hk).1 hplain, t, ht, hl, hangle,
    hangled⟩

/-- A backslash before an angle bracket takes it for the start of a word. -/
theorem isMatch_angle :
    ∃ path, parse "\\<a" "." = .ok path ∧ ∃ s ∈ path.segments,
      s.literal? = some "<a" ∧ s.isMatch "<a" = false ∧ s.isMatch "a" = true := by
  obtain ⟨path, hpath, hfirst⟩ := exists_parse "\\<a" "."
    (fun p => p.segments[0]?.any fun s =>
      s.literal? = some "<a" && !s.isMatch "<a" && s.isMatch "a")
    (by decide +kernel)
  obtain ⟨s, hs, hprops⟩ := (Option.any_eq_true _ _).1 hfirst
  simp only [Bool.and_eq_true, decide_eq_true_eq, Bool.not_eq_true'] at hprops
  exact ⟨path, hpath, s, List.mem_of_getElem? hs, hprops.1.1, hprops.1.2, hprops.2⟩

end KeyPath

end YamlQuery
