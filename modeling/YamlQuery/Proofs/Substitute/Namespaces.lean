import YamlQuery.Proofs.Substitute.Tokens

/-!
# Proofs.Substitute.Namespaces — tokens with a namespace

The name in a token is cut at the first colons in it.  If the namespace is written in front of the
name of a property, these are the colons between the two, unless there are others in the namespace,
or a single one at its end (`asks_namespaced_iff`).  Then the token is taken for one of another
namespace, and the text stays as it is (`text_namespaced_iff`).
-/

namespace YamlQuery.Substitute

variable {lookup : Lookup} {ns s pre post name property value : List Char} {i : Nat}

/-! ### The namespace in front of a name -/

/-- The name in a token for a property, with the namespace in front. -/
def namespaced (ns property : List Char) : List Char := ns ++ colons ++ property

/-- Behind the namespace, colons are the first ones. -/
def IsSeparable (ns : List Char) : Prop := ¬ colons <:+: ns ++ [':']

instance (ns : List Char) : Decidable (IsSeparable ns) :=
  inferInstanceAs (Decidable (¬ colons <:+: ns ++ [':']))

/-- Colons that begin in the namespace end before the second one of those behind it. -/
theorem standsAt_namespaced_iff (h : i < ns.length) :
    Text.StandsAt colons (namespaced ns property) i ↔ Text.StandsAt colons (ns ++ [':']) i := by
  have hlength : (ns ++ [':']).length = ns.length + 1 := List.length_append
  have hdrop : (namespaced ns property).drop i = (ns ++ [':']).drop i ++ ':' :: property := by
    rw [← List.drop_append_of_le_length (by omega)]
    simp [namespaced, colons]
  rw [Text.StandsAt, Text.StandsAt, hdrop]
  refine ⟨fun hstands => ?_, fun hstands => hstands.trans (List.prefix_append _ _)⟩
  refine List.prefix_of_prefix_length_le hstands (List.prefix_append _ _) ?_
  rw [List.length_drop, hlength]
  exact (by omega : 2 ≤ ns.length + 1 - i)

theorem isSeparable_iff (property : List Char) : IsSeparable ns ↔
    ∀ i < ns.length, ¬ Text.StandsAt colons (namespaced ns property) i := by
  rw [IsSeparable, Text.infix_iff_exists_standsAt, not_exists]
  refine ⟨fun h i hi => mt (standsAt_namespaced_iff hi).1 (h i), fun h i hstands => ?_⟩
  have hlength := hstands.length_le
  rw [List.length_drop, List.length_append] at hlength
  have hi : i < ns.length := by
    have hcolons : colons.length = 2 := rfl
    have hsingle : [':'].length = 1 := rfl
    omega
  exact h i hi ((standsAt_namespaced_iff hi).2 hstands)

/-- A name with the namespace in front asks for the property behind it, or for none. -/
theorem asks_namespaced_iff {other : List Char} :
    Asks ns (namespaced ns property) other ↔ IsSeparable ns ∧ other = property := by
  rw [isSeparable_iff property]
  constructor
  · rintro (⟨hnot, -⟩ | ⟨heq, hfirst⟩)
    · exact absurd ⟨ns, property, rfl⟩ hnot
    · exact ⟨hfirst, List.append_cancel_left heq⟩
  · rintro ⟨hfirst, rfl⟩
    exact .inr ⟨rfl, hfirst⟩

theorem defines_namespaced_iff : Defines lookup ns (namespaced ns property) value ↔
    IsSeparable ns ∧ lookup (String.ofList property) = some (String.ofList value) := by
  simp only [Defines, asks_namespaced_iff, and_assoc, exists_and_left, exists_eq_left]

/-! ### A token by itself -/

theorem not_tokenAt (h : '$' ∉ s) : ¬ TokenAt s i name := fun hat =>
  h (List.mem_of_mem_drop (hat.standsAt.subset List.mem_cons_self))

theorem not_tokenAt_of_lt (hpre : '$' ∉ pre) (hi : i < pre.length) :
    ¬ TokenAt (pre ++ s) i name := by
  intro hat
  have hstands : token name <+: pre[i] :: (pre.drop (i + 1) ++ s) := by
    rw [← List.cons_append, List.getElem_cons_drop,
      ← List.drop_append_of_le_length (Nat.le_of_lt hi)]
    exact hat.standsAt
  obtain ⟨hdollar, -⟩ : '$' = pre[i] ∧ _ := List.cons_prefix_cons.1 hstands
  exact hpre (hdollar ▸ List.getElem_mem hi)

theorem chars_of_not_mem (h : '$' ∉ s) : chars lookup ns s = (s, false) :=
  charsFrom_of_no_token fun hmark => h (hmark.subset List.mem_cons_self)

/-- A text with one token changes if the token is defined. -/
theorem chars_token_between (hpre : '$' ∉ pre) (hpost : '$' ∉ post) (hname : IsName name)
    (hvalue : Defines lookup ns name value) :
    chars lookup ns (pre ++ token name ++ post) = (pre ++ value ++ post, true) := by
  have hsource := chars_source (h := ⟨pre, name, value⟩) (s := post)
    (fun i hi n v hat => not_tokenAt_of_lt hpre hi (List.append_assoc .. ▸ hat.1)) hname hvalue
  rwa [chars_of_not_mem hpost] at hsource

theorem chars_token_between_of_undefined (hpre : '$' ∉ pre) (hpost : '$' ∉ post)
    (hname : IsName name) (hvalue : ∀ value, ¬ Defines lookup ns name value) :
    chars lookup ns (pre ++ token name ++ post) = (pre ++ token name ++ post, false) := by
  let h : Hit := ⟨pre, name, []⟩
  have hfree : ∀ i < (h.source ++ post).length, ∀ n v,
      ¬ DefinedAt lookup ns (h.source ++ post ++ []) i n v := by
    rw [List.append_nil]
    intro i _ n v hat
    obtain hlt | ⟨-, rfl⟩ | ⟨j, -, hat⟩ := definedAt_source hname hat
    · exact not_tokenAt_of_lt hpre hlt (List.append_assoc .. ▸ hat.1)
    · exact hvalue v hat.2
    · exact not_tokenAt hpost hat.1
  have hchars := chars_append_of_free hfree
  rwa [List.append_nil, show chars lookup ns [] = ([], false) from rfl, List.append_nil] at hchars

/-- **Which namespaces can be written.**  The token of a property, with the namespace in front of its
name, is replaced by the value exactly if the namespace has no colons in it and none at its end.
With any other namespace such a token stays. -/
theorem text_namespaced_iff {lookup : Lookup} (ns : String) {property value pre post : String}
    (hvalue : lookup property = some value)
    (hns : ns.toList.all isNameChar) (hproperty : property.toList.all isNameChar)
    (hpre : '$' ∉ pre.toList) (hpost : '$' ∉ post.toList) :
    let s := pre ++ "$\x7b" ++ ns ++ "::" ++ property ++ "\x7d" ++ post
    (text lookup ns s = (pre ++ value ++ post, true) ↔ IsSeparable ns.toList) ∧
    (¬ IsSeparable ns.toList → text lookup ns s = (s, false)) := by
  intro s
  let name := namespaced ns.toList property.toList
  have hs : s.toList = pre.toList ++ token name ++ post.toList := by
    simp [s, name, namespaced, token, mark, colons]
  have hname : IsName name := by
    have hall : (ns.toList ++ colons ++ property.toList).all isNameChar = true := by
      rw [List.all_append, List.all_append, hns, hproperty]
      rfl
    exact ⟨by simp [name, namespaced, colons], List.all_eq_true.1 hall⟩
  have hdefines {v : List Char} : Defines lookup ns.toList name v ↔
      IsSeparable ns.toList ∧ lookup property = some (String.ofList v) := by
    rw [defines_namespaced_iff, String.ofList_toList]
  have hkept (h : ¬ IsSeparable ns.toList) : text lookup ns s = (s, false) := by
    have hchars := chars_token_between_of_undefined hpre hpost hname
      fun v hv => h (hdefines.1 hv).1
    rw [text, hs, hchars, ← hs]
    exact congrArg (·, false) String.ofList_toList
  refine ⟨⟨fun htext => ?_, fun h => ?_⟩, hkept⟩
  · by_contra h
    rw [hkept h] at htext
    cases congrArg Prod.snd htext
  · have hchars := chars_token_between hpre hpost hname
      (hdefines.2 ⟨h, by rw [hvalue, String.ofList_toList]⟩)
    rw [text, hs, hchars]
    refine congrArg (·, true) ?_
    rw [String.ofList_append, String.ofList_append, String.ofList_toList, String.ofList_toList,
      String.ofList_toList]

/-- An empty namespace, a colon at the start of a name and further ones in it; and a namespace with a
colon at its end. -/
theorem text_namespaced_iff_colons :
    let lookup : Lookup := .ofEntries [(":a::b", "1")]
    lookup ":a::b" = some "1" ∧
      IsSeparable "".toList ∧ text lookup "" "x$\x7b:::a::b\x7d\x7d" = ("x1\x7d", true) ∧
      ¬ IsSeparable "n:".toList ∧
      text lookup "n:" "x$\x7bn::::a::b\x7d\x7d" = ("x$\x7bn::::a::b\x7d\x7d", false) := by
  intro lookup
  have hvalue : lookup ":a::b" = some "1" := rfl
  have hseparable : IsSeparable "".toList := by decide
  have hnot : ¬ IsSeparable "n:".toList := by decide
  have hpre : '$' ∉ "x".toList := by decide
  have hpost : '$' ∉ "\x7d".toList := by decide
  have hempty := text_namespaced_iff "" hvalue rfl rfl hpre hpost
  have hcolon := text_namespaced_iff "n:" hvalue rfl rfl hpre hpost
  exact ⟨hvalue, hseparable, hempty.1.2 hseparable, hnot, hcolon.2 hnot⟩

/-- A namespace with colons in it is not found in front of a name. -/
theorem text_ne_value_of_namespace_colons :
    let lookup : Lookup := .ofEntries [("n", "v")]
    text lookup "a::b" "$\x7ba::b::n\x7d" = ("$\x7ba::b::n\x7d", false) ∧
      text lookup "a::b" "$\x7ba::b::n\x7d" ≠ ("v", true) := by
  decide +kernel

end YamlQuery.Substitute
