import Mathlib.Data.List.Forall2
import YamlQuery.Proofs.Pattern.Segments
import YamlQuery.Proofs.Text.Trimming

/-!
# Proofs.Pattern.Bare — keys that are their own segments

A bare key can stand in a path as it is: it is not empty, and none of its characters is white space,
has a meaning in patterns or is in the delimiter.  Bare keys with the delimiter between them are cut
apart again (`pieces_joined`), and as a segment each is a pattern unless it takes too much room
(`isSome_ofText?_of_isPlain`), which then matches this key alone (`isMatch_iff_eq`).
-/

namespace YamlQuery

/-! ### Room -/

namespace Pattern

open Segment

theorem foldl_room (ps : List Part) (n : Nat) :
    ps.foldl (fun n p => n + p.room) n = n + (ps.map (·.room)).sum := by
  induction ps generalizing n with
  | nil => simp
  | cons p ps ih => rw [List.foldl_cons, ih, List.map_cons, List.sum_cons, Nat.add_assoc]

theorem foldl_depth {ps : List Part} (h : ∀ p ∈ ps, p.depth = 0) :
    ps.foldl (fun d p => max d p.depth) 0 = 0 := by
  induction ps with
  | nil => rfl
  | cons p ps ih =>
    rw [List.forall_mem_cons] at h
    rw [List.foldl_cons, h.1]
    exact ih h.2

end Pattern

theorem Text.utf8ByteSize_cons (c : Char) (s : List Char) :
    (String.ofList (c :: s)).utf8ByteSize = c.utf8Size + (String.ofList s).utf8ByteSize := by
  have hcons : String.ofList (c :: s) = String.singleton c ++ String.ofList s := by
    apply String.toList_inj.1
    simp
  rw [hcons, String.utf8ByteSize_append, String.utf8ByteSize_singleton]

theorem Text.utf8ByteSize_replicate (n : Nat) (c : Char) :
    (String.ofList (List.replicate n c)).utf8ByteSize = n * c.utf8Size := by
  induction n with
  | zero => simp
  | succ n ih => rw [List.replicate_succ, utf8ByteSize_cons, ih, Nat.succ_mul, Nat.add_comm]

/-- A character takes room for each of its bytes. -/
theorem Pattern.sum_room_charPart (s : List Char) :
    ((s.map (Reading.charPart {})).map (·.room)).sum = 32 * (String.ofList s).utf8ByteSize := by
  induction s with
  | nil => rfl
  | cons c s ih =>
    have hroom : (Reading.charPart {} c).room = c.utf8Size * 32 := rfl
    rw [List.map_cons, List.map_cons, List.sum_cons, ih, hroom, Text.utf8ByteSize_cons]
    omega

namespace Segment

/-- No character has a meaning of its own in patterns. -/
def IsPlain (raw : List Char) : Prop := ∀ c ∈ raw, c ≠ '\\' ∧ isPatternChar c = false

variable {raw : List Char}

theorem literalChars?_of_isPlain : ∀ {raw : List Char}, IsPlain raw → literalChars? raw = some raw
  | [], _ => rfl
  | c :: s, h => by
    obtain ⟨⟨hc, hp⟩, h⟩ := List.forall_mem_cons.1 h
    have hkept : (c == '\\' || isPatternChar c) = false := by
      rw [hp, Bool.or_false]
      exact beq_eq_false_iff_ne.2 hc
    rw [literalChars?, hkept, literalChars?_of_isPlain h]
    · rfl
    · exact fun _ _ he _ => hc he

theorem signs_of_isPlain : ∀ {raw : List Char}, IsPlain raw → signs raw = raw.map (⟨false, ·⟩)
  | [], _ => rfl
  | c :: s, h => by
    obtain ⟨⟨hc, -⟩, h⟩ := List.forall_mem_cons.1 h
    rw [signs_cons hc, signs_of_isPlain h, List.map_cons]

/-- The most bytes that a segment without pattern characters may have. -/
def longestPlain : Nat := 327674

/-- What a segment without pattern characters is as a pattern takes room for each byte of it. -/
theorem sequence_of_isPlain (h : IsPlain raw) :
    let p := Pattern.sequence ((signs raw).map Pattern.signPart).reverse
    p.depth ≤ 1 ∧ p.room = 32 + 32 * (String.ofList raw).utf8ByteSize := by
  intro p
  have hparts : (signs raw).map Pattern.signPart = raw.map (Pattern.Reading.charPart {}) := by
    rw [signs_of_isPlain h, List.map_map]
    rfl
  have hdepth : ∀ q ∈ ((signs raw).map Pattern.signPart).reverse, q.depth = 0 := by
    rw [hparts]
    simp [Pattern.Reading.charPart]
  constructor
  · show List.foldl _ 0 _ + _ ≤ 1
    rw [Pattern.foldl_depth hdepth]
    split <;> decide
  · show List.foldl _ Pattern.stateRoom _ = _
    rw [Pattern.foldl_room, List.map_reverse, List.sum_reverse, hparts, Pattern.sum_room_charPart]
    rfl

/-- A segment without pattern characters is a pattern unless it takes too much room. -/
theorem isSome_ofText?_of_isPlain (h : IsPlain raw) :
    (ofText? raw).isSome ↔ (String.ofList raw).utf8ByteSize ≤ longestPlain := by
  obtain ⟨hdepth, hroom⟩ := sequence_of_isPlain h
  rw [ofText?, Option.isSome_map, Pattern.read?,
    Pattern.run?_patternText (literalChars?_of_isPlain h)]
  generalize Pattern.sequence ((signs raw).map Pattern.signPart).reverse = p at hdepth hroom ⊢
  dsimp only
  rw [Pattern.groupPart, Pattern.close_framed]
  have hfits : (Pattern.framed p).depth ≤ Pattern.depthLimit := by
    show p.depth + 2 ≤ 250
    omega
  have hlimit : (Pattern.framed p).room ≤ Pattern.roomLimit ↔
      (String.ofList raw).utf8ByteSize ≤ longestPlain := by
    show p.room + 160 ≤ 10 * 0x100000 ↔ _ ≤ 327674
    omega
  simp [hfits, hlimit]

/-- A segment without pattern characters and backslashes matches itself and no other key. -/
theorem isMatch_iff_eq {s : Segment} (hs : ofText? raw = some s) (h : IsPlain raw) (key : String) :
    s.isMatch key ↔ key.toList = raw := by
  have hchars : (signs raw).map (·.char) = raw := by
    rw [signs_of_isPlain h, List.map_map]
    exact List.map_id raw
  have hangle : ∀ t ∈ signs raw, t.isAngle = false := by
    rw [signs_of_isPlain h]
    exact List.forall_mem_map.2 fun c _ => rfl
  constructor
  · intro hm
    rw [eq_written_of_isMatch hs (literalChars?_of_isPlain h) hm, written_eq_map hangle, hchars]
  · intro hkey
    rw [isMatch_iff_spans hs (literalChars?_of_isPlain h)]
    exact Pattern.spans_of_drop hangle (Nat.zero_le _) (by rw [List.drop_zero, hchars, hkey])

end Segment

/-! ### Texts with a separator between them -/

namespace Text

variable {sep : List Char}

theorem splitFrom_append_left : ∀ (t s : List Char),
    splitFrom sep t.length (t ++ s) = splitFrom sep 0 s
  | [], _ => rfl
  | _ :: t, s => splitFrom_append_left t s

/-- The first separator comes behind a text without characters of it. -/
theorem splitOn_append (hsep : sep ≠ []) {w : List Char} (hw : ∀ c ∈ w, c ∉ sep) (s : List Char) :
    splitOn sep (w ++ (sep ++ s)) = w :: splitOn sep s := by
  obtain ⟨d, sep, rfl⟩ := List.exists_cons_of_ne_nil hsep
  induction w with
  | nil =>
    have hprefix : (d :: sep).isPrefixOf (d :: (sep ++ s)) = true :=
      List.isPrefixOf_iff_prefix.2 (List.prefix_append (d :: sep) s)
    rw [List.nil_append, List.cons_append, splitOn_eq_splitFrom, splitFrom, if_pos hprefix]
    exact congrArg ([] :: ·) (splitFrom_append_left sep s)
  | cons c w ih =>
    obtain ⟨hc, hw⟩ := List.forall_mem_cons.1 hw
    have hprefix : ¬(d :: sep).isPrefixOf (c :: (w ++ (d :: sep ++ s))) = true := by
      rw [List.isPrefixOf_iff_prefix, List.cons_prefix_cons]
      rintro ⟨rfl, -⟩
      exact hc List.mem_cons_self
    rw [List.cons_append, splitOn_eq_splitFrom, splitFrom, if_neg hprefix,
      ← splitOn_eq_splitFrom, ih hw]
    rfl

theorem splitOn_eq_self (hsep : sep ≠ []) {w : List Char} (hw : ∀ c ∈ w, c ∉ sep) :
    splitOn sep w = [w] := by
  obtain ⟨d, sep, rfl⟩ := List.exists_cons_of_ne_nil hsep
  induction w with
  | nil => rfl
  | cons c w ih =>
    obtain ⟨hc, hw⟩ := List.forall_mem_cons.1 hw
    have hprefix : ¬(d :: sep).isPrefixOf (c :: w) = true := by
      rw [List.isPrefixOf_iff_prefix, List.cons_prefix_cons]
      rintro ⟨rfl, -⟩
      exact hc List.mem_cons_self
    rw [splitOn_eq_splitFrom, splitFrom, if_neg hprefix, ← splitOn_eq_splitFrom, ih hw]
    rfl

/-- Texts without characters of the separator between them are the pieces of their join. -/
theorem splitOn_join (hsep : sep ≠ []) :
    ∀ {ws : List (List Char)}, ws ≠ [] → (∀ w ∈ ws, ∀ c ∈ w, c ∉ sep) →
      splitOn sep (join sep ws) = ws
  | [], hne, _ => absurd rfl hne
  | [w], _, h => splitOn_eq_self hsep (h w List.mem_cons_self)
  | w :: v :: ws, _, h => by
    obtain ⟨hw, h⟩ := List.forall_mem_cons.1 h
    have hne := List.cons_ne_nil v ws
    rw [join_cons hne, List.append_assoc, splitOn_append hsep hw, splitOn_join hsep hne h]

theorem join_ne_nil {ws : List (List Char)} (hne : ws ≠ []) (h : ∀ w ∈ ws, w ≠ []) :
    join sep ws ≠ [] := by
  obtain ⟨w, ws, rfl⟩ := List.exists_cons_of_ne_nil hne
  have hw := h w List.mem_cons_self
  cases ws with
  | nil => exact hw
  | cons v ws => simp [join, hw]

theorem head_join (sep : List Char) {ws : List (List Char)} (hne : ws ≠ []) (h : ∀ w ∈ ws, w ≠ []) :
    ∃ w ∈ ws, (join sep ws).head (join_ne_nil hne h) ∈ w := by
  obtain ⟨w, ws, rfl⟩ := List.exists_cons_of_ne_nil hne
  have hw := h w List.mem_cons_self
  refine ⟨w, List.mem_cons_self, ?_⟩
  by_cases hws : ws = []
  · subst hws
    exact List.head_mem hw
  · simp only [join_cons hws, List.append_assoc, List.head_append_of_ne_nil hw]
    exact List.head_mem hw

theorem getLast_join (sep : List Char) : ∀ {ws : List (List Char)} (hne : ws ≠ []) (h : ∀ w ∈ ws, w ≠ []),
    ∃ w ∈ ws, (join sep ws).getLast (join_ne_nil hne h) ∈ w
  | [w], _, h => ⟨w, List.mem_cons_self, List.getLast_mem (h w List.mem_cons_self)⟩
  | w :: v :: ws, _, h => by
    have hrest : ∀ u ∈ v :: ws, u ≠ [] := fun u hu => h u (List.mem_cons_of_mem w hu)
    have hne := List.cons_ne_nil v ws
    obtain ⟨u, hu, hmem⟩ := getLast_join sep hne hrest
    refine ⟨u, List.mem_cons_of_mem w hu, ?_⟩
    simpa only [join_cons hne, List.getLast_append_of_ne_nil _ (join_ne_nil hne hrest)] using hmem

/-- Texts without blanks are joined to a text that does not start or end with one. -/
theorem trim_join {ws : List (List Char)} (hne : ws ≠ []) (h : ∀ w ∈ ws, w ≠ [])
    (hblank : ∀ w ∈ ws, ∀ c ∈ w, isBlank c = false) : trim (join sep ws) = join sep ws := by
  obtain ⟨v, hv, hhead⟩ := head_join sep hne h
  obtain ⟨w, hw, hlast⟩ := getLast_join sep hne h
  exact trim_eq_self (join_ne_nil hne h) (hblank v hv _ hhead) (hblank w hw _ hlast)

end Text

/-! ### Paths of bare keys -/

namespace KeyPath

open Segment

/-- A key that stands for itself in a path: not empty, and without white space, pattern characters
and characters of the delimiter. -/
structure IsBare (delimiter key : String) : Prop where
  ne_empty : key ≠ ""
  chars : ∀ c ∈ key.toList, ¬Text.isBlank c ∧ c ≠ '\\' ∧ ¬isPatternChar c ∧ c ∉ delimiter.toList

instance (delimiter key : String) : Decidable (IsBare delimiter key) :=
  decidable_of_iff (key ≠ "" ∧ key.toList.all fun c => !Text.isBlank c && c != '\\' &&
      !isPatternChar c && !delimiter.toList.contains c) <| by
    simp only [List.all_eq_true, Bool.and_eq_true, Bool.not_eq_true', bne_iff_ne, and_assoc,
      ← Bool.not_eq_true, List.contains_iff_mem]
    exact ⟨fun h => ⟨h.1, h.2⟩, fun h => ⟨h.ne_empty, h.chars⟩⟩

/-- The segments match these keys, each of them only its own. -/
def Spells (ss : List Segment) (keys : List String) : Prop :=
  List.Forall₂ (fun s k => ∀ key, s.isMatch key ↔ key = k) ss keys

variable {delimiter : String} {keys : List String}

theorem IsBare.isPlain {k : String} (h : IsBare delimiter k) : IsPlain k.toList :=
  fun c hc => ⟨(h.chars c hc).2.1, by simpa using (h.chars c hc).2.2.1⟩

theorem IsBare.toList_ne_nil {k : String} (h : IsBare delimiter k) : k.toList ≠ [] :=
  fun hk => h.ne_empty (String.toList_inj.1 hk)

theorem trim_joined (hne : keys ≠ []) (h : ∀ k ∈ keys, IsBare delimiter k) :
    Text.trim (Text.joined delimiter keys).toList =
      Text.join delimiter.toList (keys.map String.toList) := by
  rw [Text.joined, String.toList_ofList]
  refine Text.trim_join (by simpa using hne) (List.forall_mem_map.2 fun k hk => ?_)
    (List.forall_mem_map.2 fun k hk c hc => ?_)
  · exact (h k hk).toList_ne_nil
  · simpa using ((h k hk).chars c hc).1

/-- Bare keys are the pieces of the text that they are joined to. -/
theorem pieces_joined (hd : delimiter ≠ "") (hne : keys ≠ []) (h : ∀ k ∈ keys, IsBare delimiter k) :
    pieces (Text.joined delimiter keys) delimiter = keys.map String.toList := by
  have hsep : delimiter.toList ≠ [] := fun hs => hd (String.toList_inj.1 hs)
  rw [pieces, trim_joined hne h]
  refine Text.splitOn_join hsep (by simpa using hne) (List.forall_mem_map.2 fun k hk c hc => ?_)
  exact ((h k hk).chars c hc).2.2.2

theorem trim_joined_ne_nil (hne : keys ≠ []) (h : ∀ k ∈ keys, IsBare delimiter k) :
    Text.trim (Text.joined delimiter keys).toList ≠ [] := by
  rw [trim_joined hne h]
  exact Text.join_ne_nil (by simpa using hne)
    (List.forall_mem_map.2 fun k hk => (h k hk).toList_ne_nil)

/-- The segments of a path of bare keys are the keys. -/
theorem raw_of_parse_joined {path : KeyPath} (hd : delimiter ≠ "") (hne : keys ≠ [])
    (h : ∀ k ∈ keys, IsBare delimiter k)
    (hpath : parse (Text.joined delimiter keys) delimiter = .ok path) :
    path.segments.map (·.raw.toList) = keys.map String.toList ∧
      ∀ s ∈ path.segments, ofText? s.raw.toList = some s := by
  rw [← pieces_joined hd hne h]
  refine ⟨raw_of_parse hd (trim_joined_ne_nil hne h) hpath, fun s hs => ?_⟩
  obtain ⟨raw, hraw⟩ := exists_ofText?_of_parse hpath s hs
  rwa [(raw_of_ofText? hraw).1]

/-- Bare keys are a path exactly if none of them takes too much room. -/
theorem exists_parse_joined_iff (hd : delimiter ≠ "") (hne : keys ≠ [])
    (h : ∀ k ∈ keys, IsBare delimiter k) :
    (∃ path, parse (Text.joined delimiter keys) delimiter = .ok path) ↔
      ∀ k ∈ keys, k.utf8ByteSize ≤ longestPlain := by
  have hsize {k : String} (hk : k ∈ keys) :
      (ofText? k.toList).isSome ↔ k.utf8ByteSize ≤ longestPlain := by
    rw [isSome_ofText?_of_isPlain (h k hk).isPlain, String.ofList_toList]
  constructor
  · rintro ⟨path, hpath⟩ k hk
    obtain ⟨hraws, hsegments⟩ := raw_of_parse_joined hd hne h hpath
    obtain ⟨s, hs, hraw⟩ := List.mem_map.1 (hraws ▸ List.mem_map_of_mem hk)
    rw [← hsize hk, ← hraw, hsegments s hs]
    rfl
  · intro hsizes
    refine exists_parse_eq_ok hd (trim_joined_ne_nil hne h) ?_
    rw [pieces_joined hd hne h]
    exact List.forall_mem_map.2 fun k hk => (hsize hk).2 (hsizes k hk)

theorem remaining_of_parse {text : String} {path : KeyPath} (h : parse text delimiter = .ok path) :
    path.remaining = path.segments := by
  unfold parse at h
  dsimp only at h
  split at h
  · cases h
  split at h
  · cases h
  split at h
  · cases h
    rfl
  · cases h

/-- The segments of a path of bare keys match these keys and no others. -/
theorem spells_of_parse {path : KeyPath} (hd : delimiter ≠ "") (hne : keys ≠ [])
    (h : ∀ k ∈ keys, IsBare delimiter k)
    (hpath : parse (Text.joined delimiter keys) delimiter = .ok path) :
    Spells path.remaining keys := by
  obtain ⟨hraws, hsegments⟩ := raw_of_parse_joined hd hne h hpath
  have hplain : ∀ s ∈ path.segments, IsPlain s.raw.toList := by
    intro s hs
    obtain ⟨k, hk, hraw⟩ := List.mem_map.1 (hraws ▸ List.mem_map_of_mem hs :
      s.raw.toList ∈ keys.map String.toList)
    rw [← hraw]
    exact (h k hk).isPlain
  have hall : List.Forall₂ (· = ·) (path.segments.map (·.raw.toList)) (keys.map String.toList) := by
    rw [List.forall₂_eq_eq_eq]
    exact hraws
  rw [List.forall₂_map_left_iff, List.forall₂_map_right_iff] at hall
  rw [remaining_of_parse hpath]
  refine List.Forall₂.imp ?_ ((List.forall₂_and_left _ _).2
    ⟨fun s hs => And.intro (hsegments s hs) (hplain s hs), hall⟩)
  rintro s k ⟨⟨hs, hp⟩, hraw⟩ key
  rw [isMatch_iff_eq hs hp, hraw, String.toList_inj]

end KeyPath

end YamlQuery
