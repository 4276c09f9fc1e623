import YamlQuery.Proofs.Document.Values
import YamlQuery.Reference

/-!
# Proofs.Json.Reading — JSON text that is read back

The reader takes from the front of a text what the writer wrote: `stringStep?_escape` for a
character, `number?_decimalInt` for an integer and `ReadsBack` for a value of some depth, with one
lemma for each kind of value.
-/

namespace YamlQuery

namespace Json

open Text

/-! ### Strings -/

theorem unicodeEscape?_hex {n : Nat} (hn : n < 0x20) (s : List Char) :
    unicodeEscape? (hex false 4 n ++ s) = some (Char.ofNat n, s) := by
  have hread : hex4? (hex false 4 n ++ s) = some (n, s) := by
    have hnat : ∀ n < 0x20, natOf? 16 (hex false 4 n) = some n := by decide
    rw [show hex false 4 n ++ s = hexDigit false (n / 16 / 16 / 16 % 16) ::
      hexDigit false (n / 16 / 16 % 16) :: hexDigit false (n / 16 % 16) ::
      hexDigit false (n % 16) :: s from rfl, hex4?]
    exact congrArg (Option.map (·, s)) (hnat n hn)
  have hlow : (0xDC00 ≤ n && n ≤ 0xDFFF) = false := by simp; omega
  have hhigh : (0xD800 ≤ n && n ≤ 0xDBFF) = false := by simp; omega
  simp only [unicodeEscape?, hread, hlow, hhigh]
  rfl

/-- The reader takes a character as the writer escapes it. -/
theorem stringStep?_escape (c : Char) (s : List Char) :
    stringStep? (escape c ++ s) = some (some c, s) := by
  unfold escape
  split
  case h_8 hquote hslash _ _ _ _ _ =>
    split
    next hc =>
      simp only [List.cons_append, List.nil_append, stringStep?,
        unicodeEscape?_hex hc, Option.map_some, Char.ofNat_toNat]
    next hc =>
      have hkept : (c.toNat < 0x20 || c == '\\') = false := by simpa [hc] using hslash
      rw [List.singleton_append, stringStep?, hkept]
      · rfl
      · exact hquote
      · exact fun _ hc _ => hslash hc
      · exact fun _ _ hc _ => hslash hc
  all_goals rfl

theorem stringFrom?_flatMap_escape {cs : List Char} {fuel : Nat} (hfuel : cs.length < fuel)
    (s : List Char) : stringFrom? fuel (cs.flatMap escape ++ '"' :: s) = some (cs, s) := by
  induction cs generalizing fuel with
  | nil =>
    obtain ⟨fuel, rfl⟩ := Nat.exists_eq_add_one.2 hfuel
    rfl
  | cons c cs ih =>
    obtain ⟨fuel, rfl⟩ := Nat.exists_eq_add_one.2 (Nat.zero_lt_of_lt hfuel)
    rw [List.length_cons, Nat.add_lt_add_iff_right] at hfuel
    rw [List.flatMap_cons, List.append_assoc, stringFrom?, stringStep?_escape]
    simp only [ih hfuel, Option.map_some]

theorem length_le_length_flatMap_escape (cs : List Char) :
    cs.length ≤ (cs.flatMap escape).length := by
  induction cs with
  | nil => simp
  | cons c cs ih =>
    have hpos : 0 < (escape c).length := by
      unfold escape
      split <;> try simp
      split <;> simp
    rw [List.flatMap_cons, List.length_append, List.length_cons]
    omega

theorem string?_quoted (t : String) (s : List Char) :
    string? (t.toList.flatMap escape ++ '"' :: s) = some (t, s) := by
  have hlength := length_le_length_flatMap_escape t.toList
  rw [string?, stringFrom?_flatMap_escape (by simp only [List.length_append]; omega)]
  simp

/-! ### Integers -/

/-- What cannot go on with a number. -/
def EndsNumber (s : List Char) : Prop :=
  ∀ c ∈ s.head?, digitOf? 10 c = none ∧ c ≠ '.' ∧ c ≠ 'e' ∧ c ≠ 'E'

theorem wholeDigits_append {ds s : List Char} (hds : ∀ c ∈ ds, c.isDigit) (hs : EndsNumber s)
    {significand : Nat} (hlimit : Nat.ofDigitChars 10 ds significand ≤ significandLimit) :
    wholeDigits significand 0 (ds ++ s) = (Nat.ofDigitChars 10 ds significand, 0, s) := by
  induction ds generalizing significand with
  | nil =>
    cases s with
    | nil => rfl
    | cons c s => simp [wholeDigits, (hs c rfl).1]
  | cons c ds ih =>
    rw [List.forall_mem_cons] at hds
    rw [Nat.ofDigitChars_cons] at hlimit ⊢
    rw [List.cons_append, wholeDigits, Double.digitOf?_ten hds.1]
    have hle : significand * 10 + (c.toNat - '0'.toNat) ≤ significandLimit := by
      rw [Nat.ofDigitChars_eq_ofDigitChars_zero] at hlimit
      have hpow : 1 ≤ 10 ^ ds.length := Nat.one_le_pow _ _ (by decide)
      have hmul := Nat.mul_le_mul_right (10 * significand + (c.toNat - '0'.toNat)) hpow
      omega
    simp only [hle, and_self, if_true]
    rw [Nat.mul_comm significand]
    exact ih hds.2 hlimit

theorem eq_zero_of_decimal_eq {n : Nat} {s : List Char} (h : decimal n = '0' :: s) : n = 0 := by
  induction n using Nat.strongRecOn generalizing s with
  | ind n ih =>
    by_cases hn : n < 10
    · have hdigits : decimal n = [n.digitChar] := Nat.toDigits_of_lt_base hn
      rw [hdigits, List.cons.injEq] at h
      exact (show ∀ n < 10, n.digitChar = '0' → n = 0 by decide) n hn h.1
    · have hdigits : decimal n = decimal (n / 10) ++ [(n % 10).digitChar] :=
        Nat.toDigits_of_base_le (by decide) (by omega)
      obtain ⟨c, t, hc, -⟩ := Double.exists_decimal (n / 10)
      rw [hdigits, hc, List.cons_append, List.cons.injEq] at h
      rw [h.1] at hc
      have hquotient := ih (n / 10) (by omega) hc
      omega

theorem unsigned?_decimal {n : Nat} {s : List Char} (negative : Bool)
    (hn : n ≤ significandLimit) (hs : EndsNumber s) :
    unsigned? negative (decimal n ++ s) = some (integral negative n, s) := by
  obtain ⟨c, t, hc, hdigit⟩ := Double.exists_decimal n
  have hwhole : wholeDigits 0 0 (decimal n ++ s) = (n, 0, s) := by
    have hnumber : Nat.ofDigitChars 10 (decimal n) 0 = n := Nat.ofDigitChars_ten_toDigits
    rw [wholeDigits_append (fun c hc => Double.isDigit_of_mem_decimal hc) hs (hnumber.symm ▸ hn),
      hnumber]
  have hhead : (decimal n ++ s).head?.any isDigit = true := by
    rw [hc, List.cons_append, List.head?_cons, Option.any_some, isDigit,
      Double.digitOf?_ten hdigit]
    rfl
  unfold unsigned?
  dsimp only
  rw [if_neg]
  · rw [hwhole]
    cases s with
    | nil => rfl
    | cons d s =>
      obtain ⟨-, hpoint, he, hE⟩ := hs d rfl
      simp [he, hE]
  -- A zero comes first only in the text of zero, and no digit follows it there.
  · rw [hhead, Bool.not_true, Bool.or_false]
    split
    next d u heq =>
      rw [hc, List.cons_append, List.cons.injEq] at heq
      rw [heq.1] at hc
      have hn0 := eq_zero_of_decimal_eq hc
      subst hn0
      obtain rfl : t = [] := (List.cons.inj hc).2.symm
      rw [isDigit, (hs d (by rw [show s = d :: u from heq.2]; rfl)).1]
      exact Bool.false_ne_true
    next => exact Bool.false_ne_true

theorem integral_eq (i : WideInt) :
    integral (decide (i.toInt < 0)) i.toInt.natAbs = .integer i := by
  have hback : (if decide (i.toInt < 0) = true then -(i.toInt.natAbs : Int) else i.toInt.natAbs) =
      i.toInt := by
    split
    next h =>
      rw [decide_eq_true_eq] at h
      omega
    next h =>
      rw [decide_eq_true_eq] at h
      omega
  have hzero : ¬(decide (i.toInt < 0) && decide (i.toInt.natAbs = 0)) = true := by
    rw [Bool.and_eq_true, decide_eq_true_eq, decide_eq_true_eq]
    omega
  unfold integral
  rw [if_neg hzero]
  dsimp only
  rw [hback, WideInt.ofInt?, dif_pos ⟨i.lower, i.upper⟩]

/-- The reader takes an integer of 64 bits as the writer prints it. -/
theorem number?_decimalInt (i : WideInt) {s : List Char} (hs : EndsNumber s) :
    number? (decimalInt i.toInt ++ s) = some (.integer i, s) := by
  have hlimit : i.toInt.natAbs ≤ significandLimit := by
    have hlower := i.lower
    have hupper := i.upper
    rw [significandLimit]
    omega
  have hunsigned := unsigned?_decimal (decide (i.toInt < 0)) hlimit hs
  rw [integral_eq] at hunsigned
  cases hi : i.toInt with
  | ofNat n =>
    have hnonneg : ¬Int.ofNat n < 0 := not_lt.2 (Int.natCast_nonneg n)
    rw [hi, decide_eq_false hnonneg] at hunsigned
    obtain ⟨c, t, hc, hdigit⟩ := Double.exists_decimal n
    have hplus : number? (decimal n ++ s) = unsigned? false (decimal n ++ s) := by
      rw [hc, List.cons_append, number?]
      rintro u ⟨⟩
      exact absurd hdigit (by decide)
    exact hplus.trans hunsigned
  | negSucc n =>
    rw [hi, decide_eq_true (Int.negSucc_lt_zero n)] at hunsigned
    exact hunsigned

/-! ### Space -/

@[simp] theorem skipSpace_replicate (n : Nat) (s : List Char) :
    skipSpace (List.replicate n ' ' ++ s) = skipSpace s := by
  induction n with
  | zero => rfl
  | succ n ih => exact ih

@[simp] theorem skipSpace_newline (indent level : Nat) (s : List Char) :
    skipSpace (newline indent level ++ s) = skipSpace s :=
  skipSpace_replicate (indent * level) s

theorem endsNumber_newline (indent level : Nat) (s : List Char) :
    EndsNumber (newline indent level ++ s) := by
  rintro c ⟨⟩
  decide

theorem skipSpace_comma (s : List Char) : skipSpace (',' :: s) = ',' :: s := rfl

theorem endsNumber_comma (s : List Char) : EndsNumber (',' :: s) := by
  rintro c ⟨⟩
  decide

/-! ### Values -/

/-- A character that the text of a value starts with. -/
def IsStart (c : Char) : Prop := c.isDigit ∨ c ∈ ['-', 'n', 't', 'f', '"', '[', '\x7b']

theorem IsStart.ne {c d : Char} (h : IsStart c) (hd : ¬d.isDigit)
    (hd' : d ∉ ['-', 'n', 't', 'f', '"', '[', '\x7b']) : c ≠ d := by
  rintro rfl
  exact h.elim hd hd'

theorem IsStart.skipSpace {c : Char} (h : IsStart c) (s : List Char) :
    skipSpace (c :: s) = c :: s := by
  simp [Json.skipSpace, h.ne (d := ' ') (by decide) (by decide),
    h.ne (d := '\n') (by decide) (by decide), h.ne (d := '\t') (by decide) (by decide),
    h.ne (d := '\r') (by decide) (by decide)]

/-- The reader takes the value from the front of a text as the writer prints it, if that many
containers may still open. -/
structure ReadsBack (depth : Nat) (j : Json) : Prop where
  exists_cons (indent level : Nat) : ∃ c s, j.write indent level = c :: s ∧ IsStart c
  value? (indent level : Nat) {fuel : Nat} {s : List Char} :
    (j.write indent level).length < fuel → EndsNumber s →
      Json.value? fuel depth (j.write indent level ++ s) = some (j, s)

theorem readsBack_null (depth : Nat) : ReadsBack depth .null where
  exists_cons _ _ := ⟨_, _, rfl, .inr (by decide)⟩
  value? _ _ fuel _ hfuel _ := by
    obtain ⟨fuel, rfl⟩ := Nat.exists_eq_add_one.2 (Nat.zero_lt_of_lt hfuel)
    rfl

theorem readsBack_boolean (depth : Nat) (b : Bool) : ReadsBack depth (.boolean b) where
  exists_cons _ _ := by
    cases b with
    | false => exact ⟨_, _, rfl, .inr (by decide)⟩
    | true => exact ⟨_, _, rfl, .inr (by decide)⟩
  value? _ _ fuel _ hfuel _ := by
    cases b with
    | false =>
      obtain ⟨fuel, rfl⟩ := Nat.exists_eq_add_one.2 (Nat.zero_lt_of_lt hfuel)
      rfl
    | true =>
      obtain ⟨fuel, rfl⟩ := Nat.exists_eq_add_one.2 (Nat.zero_lt_of_lt hfuel)
      rfl

theorem readsBack_string (depth : Nat) (t : String) : ReadsBack depth (.string t) where
  exists_cons _ _ := ⟨_, _, rfl, .inr (by decide)⟩
  value? _ _ fuel _ hfuel _ := by
    obtain ⟨fuel, rfl⟩ := Nat.exists_eq_add_one.2 (Nat.zero_lt_of_lt hfuel)
    rw [write, quoted, List.cons_append, List.append_assoc, List.singleton_append, Json.value?,
      string?_quoted, Option.map_some]

theorem readsBack_integer (depth : Nat) (i : WideInt) :
    ReadsBack depth (.number (.integer i)) := by
  obtain ⟨c, t, hc, hstart⟩ : ∃ c t, decimalInt i.toInt = c :: t ∧ (c.isDigit ∨ c = '-') := by
    obtain ⟨c, t, hc, -⟩ := Double.exists_cons_decimalInt i.toInt
    exact ⟨c, t, hc, Double.isDigit_of_mem_decimalInt (hc ▸ List.mem_cons_self)⟩
  have hne {d : Char} (hd : ¬d.isDigit) (hd' : d ≠ '-') : c ≠ d := by
    rintro rfl
    exact hstart.elim hd hd'
  refine ⟨fun _ _ => ⟨c, t, hc, hstart.imp_right (by rintro rfl; decide)⟩, fun _ _ fuel s hfuel hs => ?_⟩
  obtain ⟨fuel, rfl⟩ := Nat.exists_eq_add_one.2 (Nat.zero_lt_of_lt hfuel)
  have hnumber := number?_decimalInt i hs
  rw [write, numeral, hc, List.cons_append] at *
  rw [Json.value?, hnumber, Option.map_some]
  all_goals exact fun _ h => hne (by decide) (by decide) (List.cons.inj h).1

/-! ### Containers -/

section

variable {depth : Nat} {j : Json} {items : List Json} {members : List (String × Json)}

theorem ReadsBack.skipSpace (h : ReadsBack depth j) (indent level : Nat) (s : List Char) :
    skipSpace (j.write indent level ++ s) = j.write indent level ++ s := by
  obtain ⟨c, t, hc, hstart⟩ := h.exists_cons indent level
  rw [hc, List.cons_append, hstart.skipSpace]

theorem writeItems_cons (indent level : Nat) (j : Json) (hne : items ≠ []) :
    writeItems indent level (j :: items) = newline indent level ++
      (write indent level j ++ ',' :: writeItems indent level items) := by
  rw [writeItems, List.append_assoc]
  exact hne

theorem writeMembers_cons (indent level : Nat) (k : String) (j : Json) (hne : members ≠ []) :
    writeMembers indent level ((k, j) :: members) = newline indent level ++
      (quoted k ++ ([':', ' '] ++ (write indent level j ++
        ',' :: writeMembers indent level members))) := by
  rw [writeMembers, List.append_assoc, List.append_assoc, List.append_assoc]
  exact hne

theorem exists_skipSpace_writeItems (hne : items ≠ []) (h : ∀ j ∈ items, ReadsBack depth j)
    (indent level : Nat) (s : List Char) :
    ∃ c t, skipSpace (writeItems indent level items ++ s) = c :: t ∧ IsStart c := by
  obtain ⟨j, items, rfl⟩ := List.exists_cons_of_ne_nil hne
  have hj := h j List.mem_cons_self
  obtain ⟨c, t, hc, hstart⟩ := hj.exists_cons indent level
  by_cases hitems : items = []
  · subst hitems
    rw [writeItems, List.append_assoc, skipSpace_newline, hj.skipSpace, hc]
    exact ⟨c, _, rfl, hstart⟩
  · rw [writeItems_cons indent level j hitems, List.append_assoc, skipSpace_newline,
      List.append_assoc, hj.skipSpace, hc]
    exact ⟨c, _, rfl, hstart⟩

theorem items?_write (indent level closing : Nat) :
    ∀ {items : List Json}, items ≠ [] → (∀ j ∈ items, ReadsBack depth j) →
      ∀ (fuel : Nat) (s : List Char), (writeItems indent level items).length < fuel →
        items? fuel depth (skipSpace (writeItems indent level items ++
          (newline indent closing ++ ']' :: s))) = some (items, s)
  | [], hne, _, _, _, _ => absurd rfl hne
  | [j], _, h, fuel, s, hfuel => by
    have hj := h j List.mem_cons_self
    obtain ⟨fuel, rfl⟩ := Nat.exists_eq_add_one.2 (Nat.zero_lt_of_lt hfuel)
    simp only [writeItems, newline, List.length_append, List.length_cons] at hfuel
    rw [writeItems, List.append_assoc, skipSpace_newline, hj.skipSpace, items?,
      hj.value? indent level (by omega) (endsNumber_newline indent closing (']' :: s))]
    simp only [skipSpace_newline]
    rfl
  | j :: k :: items, _, h, fuel, s, hfuel => by
    obtain ⟨hj, h⟩ := List.forall_mem_cons.1 h
    obtain ⟨fuel, rfl⟩ := Nat.exists_eq_add_one.2 (Nat.zero_lt_of_lt hfuel)
    have hne := List.cons_ne_nil k items
    rw [writeItems_cons indent level j hne] at hfuel ⊢
    simp only [newline, List.length_append, List.length_cons] at hfuel
    have ih := items?_write indent level closing hne h fuel s (by omega)
    rw [List.append_assoc, skipSpace_newline, List.append_assoc, List.cons_append, hj.skipSpace,
      items?, hj.value? indent level (by omega) (endsNumber_comma _)]
    simp only [skipSpace_comma, ih, Option.map_some]

theorem readsBack_array (h : ∀ j ∈ items, ReadsBack depth j) :
    ReadsBack (depth + 1) (.array items) := by
  cases hitems : items with
  | nil =>
    refine ⟨fun _ _ => ⟨_, _, rfl, .inr (by decide)⟩, fun _ _ fuel _ hfuel _ => ?_⟩
    obtain ⟨fuel, rfl⟩ := Nat.exists_eq_add_one.2 (Nat.zero_lt_of_lt hfuel)
    rfl
  | cons k ks =>
    refine ⟨fun _ _ => ⟨_, _, rfl, .inr (by decide)⟩, fun indent level fuel s hfuel _ => ?_⟩
    obtain ⟨fuel, rfl⟩ := Nat.exists_eq_add_one.2 (Nat.zero_lt_of_lt hfuel)
    rw [hitems] at h
    have hne := List.cons_ne_nil k ks
    simp only [write, List.length_append, List.length_cons] at hfuel
    have hread := items?_write indent (level + 1) level hne h fuel s (by omega)
    obtain ⟨c, t, hskip, hstart⟩ := exists_skipSpace_writeItems hne h indent (level + 1)
      (newline indent level ++ ']' :: s)
    have hclose : c ≠ ']' := hstart.ne (by decide) (by decide)
    have htext : write indent level (.array (k :: ks)) ++ s =
        '[' :: (writeItems indent (level + 1) (k :: ks) ++ (newline indent level ++ ']' :: s)) := by
      simp [write]
    rw [hskip] at hread
    rw [htext, Json.value?]
    rw [hskip]
    split
    next h => exact absurd (List.cons.inj h).1 hclose
    next => rw [hread, Option.map_some]

theorem exists_skipSpace_writeMembers (hne : members ≠ []) (indent level : Nat) (s : List Char) :
    ∃ t, skipSpace (writeMembers indent level members ++ s) = '"' :: t := by
  obtain ⟨⟨k, j⟩, members, rfl⟩ := List.exists_cons_of_ne_nil hne
  by_cases hmembers : members = []
  · subst hmembers
    rw [writeMembers, List.append_assoc, List.append_assoc, List.append_assoc, skipSpace_newline]
    exact ⟨_, rfl⟩
  · rw [writeMembers_cons indent level k j hmembers, List.append_assoc, skipSpace_newline]
    exact ⟨_, rfl⟩

theorem quoted_append (t : String) (s : List Char) :
    quoted t ++ s = '"' :: (t.toList.flatMap escape ++ '"' :: s) := by
  simp [quoted]

/-- A member behind its key. -/
theorem ReadsBack.colon (h : ReadsBack depth j) (indent level fuel : Nat) {s : List Char}
    (hfuel : (j.write indent level).length < fuel) (hs : EndsNumber s) :
    Json.value? fuel depth (Json.skipSpace (' ' :: (j.write indent level ++ s))) = some (j, s) := by
  rw [show Json.skipSpace (' ' :: (j.write indent level ++ s)) =
    Json.skipSpace (j.write indent level ++ s) from rfl, h.skipSpace, h.value? indent level hfuel hs]

theorem members?_last {fuel : Nat} {k : String} {s t u : List Char}
    (hvalue : Json.value? fuel depth (skipSpace s) = some (j, t))
    (hclose : skipSpace t = '\x7d' :: u) :
    members? (fuel + 1) depth (quoted k ++ ':' :: s) = some ([(k, j)], u) := by
  have hcolon : skipSpace (':' :: s) = ':' :: s := rfl
  rw [quoted_append, members?, string?_quoted]
  simp only [hcolon, hvalue, hclose]

theorem members?_more {fuel : Nat} {k : String} {s t u : List Char}
    (hvalue : Json.value? fuel depth (skipSpace s) = some (j, t))
    (hcomma : skipSpace t = ',' :: u) :
    members? (fuel + 1) depth (quoted k ++ ':' :: s) =
      (members? fuel depth (skipSpace u)).map fun (ms, s) => ((k, j) :: ms, s) := by
  have hcolon : skipSpace (':' :: s) = ':' :: s := rfl
  rw [quoted_append, members?, string?_quoted]
  simp only [hcolon, hvalue, hcomma]

theorem skipSpace_quoted (t : String) (s : List Char) : skipSpace (quoted t ++ s) = quoted t ++ s :=
  rfl

theorem members?_write (indent level closing : Nat) :
    ∀ {members : List (String × Json)}, members ≠ [] → (∀ m ∈ members, ReadsBack depth m.2) →
      ∀ (fuel : Nat) (s : List Char), (writeMembers indent level members).length < fuel →
        members? fuel depth (skipSpace (writeMembers indent level members ++
          (newline indent closing ++ '\x7d' :: s))) = some (members, s)
  | [], hne, _, _, _, _ => absurd rfl hne
  | [(k, j)], _, h, fuel, s, hfuel => by
    have hj : ReadsBack depth j := h (k, j) List.mem_cons_self
    obtain ⟨fuel, rfl⟩ := Nat.exists_eq_add_one.2 (Nat.zero_lt_of_lt hfuel)
    simp only [writeMembers, newline, List.length_append, List.length_cons] at hfuel
    have hread := hj.colon indent level fuel (by omega)
      (endsNumber_newline indent closing ('\x7d' :: s))
    rw [writeMembers, List.append_assoc, List.append_assoc, List.append_assoc, skipSpace_newline,
      skipSpace_quoted]
    exact members?_last hread (skipSpace_newline ..)
  | (k, j) :: m :: members, _, h, fuel, s, hfuel => by
    obtain ⟨hj, h⟩ := List.forall_mem_cons.1 h
    obtain ⟨fuel, rfl⟩ := Nat.exists_eq_add_one.2 (Nat.zero_lt_of_lt hfuel)
    have hne := List.cons_ne_nil m members
    rw [writeMembers_cons indent level k j hne] at hfuel ⊢
    simp only [newline, List.length_append, List.length_cons] at hfuel
    have ih := members?_write indent level closing hne h fuel s (by omega)
    have hread := ReadsBack.colon hj indent level fuel (by dsimp only; omega)
      (endsNumber_comma (writeMembers indent level (m :: members) ++
        (newline indent closing ++ '\x7d' :: s)))
    simp only [List.append_assoc, List.cons_append, List.nil_append, skipSpace_newline,
      skipSpace_quoted]
    rw [members?_more hread (skipSpace_comma _), ih, Option.map_some]

theorem readsBack_object (hd : (members.map (·.1)).Nodup) (h : ∀ m ∈ members, ReadsBack depth m.2) :
    ReadsBack (depth + 1) (.object members) := by
  cases hmembers : members with
  | nil =>
    refine ⟨fun _ _ => ⟨_, _, rfl, .inr (by decide)⟩, fun _ _ fuel _ hfuel _ => ?_⟩
    obtain ⟨fuel, rfl⟩ := Nat.exists_eq_add_one.2 (Nat.zero_lt_of_lt hfuel)
    rfl
  | cons m ms =>
    refine ⟨fun _ _ => ⟨_, _, rfl, .inr (by decide)⟩, fun indent level fuel s hfuel _ => ?_⟩
    obtain ⟨fuel, rfl⟩ := Nat.exists_eq_add_one.2 (Nat.zero_lt_of_lt hfuel)
    rw [hmembers] at h hd
    have hne := List.cons_ne_nil m ms
    simp only [write, List.length_append, List.length_cons] at hfuel
    have hread := members?_write indent (level + 1) level hne h fuel s (by omega)
    obtain ⟨t, hskip⟩ := exists_skipSpace_writeMembers hne indent (level + 1)
      (newline indent level ++ '\x7d' :: s)
    have htext : write indent level (.object (m :: ms)) ++ s = '\x7b' ::
        (writeMembers indent (level + 1) (m :: ms) ++ (newline indent level ++ '\x7d' :: s)) := by
      simp [write]
    rw [hskip] at hread
    rw [htext, Json.value?]
    rw [hskip]
    split
    next h => exact absurd (List.cons.inj h).1 (by decide)
    next =>
      rw [hread, Option.map_some]
      dsimp only
      rw [Entries.ofList_eq_self hd]

end

/-! ### Documents -/

theorem readsBack_toJson {v : Value} {depth : Nat} (hd : v.Distinct)
    (hn : v.EachNumber Number.IsInteger) (hdepth : v.depth ≤ depth) : ReadsBack depth v.toJson := by
  induction v using Value.induct generalizing depth with
  | scalar v hv =>
    cases v with
    | sequence | mapping => cases hv
    | null => exact readsBack_null depth
    | boolean b => exact readsBack_boolean depth b
    | string t => exact readsBack_string depth t
    | number n =>
      cases n with
      | integer i => exact readsBack_integer depth (.ofInt64 i)
      | double x => exact hn.elim
  | sequence items ih =>
    obtain ⟨depth, rfl⟩ := Nat.exists_eq_add_one.2 (Nat.zero_lt_of_lt hdepth)
    have hdistinct := Value.distinctItems_iff.1 hd
    have hnumber := Value.eachNumber_sequence.1 hn
    have hitems := Value.depthItems_le_iff.1 (Nat.le_of_add_le_add_right hdepth)
    rw [Value.toJson, Value.toJsonItems_eq]
    refine readsBack_array (List.forall_mem_map.2 fun v hv => ?_)
    exact ih v hv (hdistinct v hv) (hnumber v hv) (hitems v hv)
  | mapping entries ih =>
    obtain ⟨depth, rfl⟩ := Nat.exists_eq_add_one.2 (Nat.zero_lt_of_lt hdepth)
    have hdistinct := Value.distinctEntries_iff.1 hd.2
    have hnumber := Value.eachNumber_mapping.1 hn
    have hentries := Value.depthEntries_le_iff.1 (Nat.le_of_add_le_add_right hdepth)
    rw [Value.toJson, Value.toJsonMembers_eq]
    refine readsBack_object ?_ (List.forall_mem_map.2 fun e he => ?_)
    · rw [List.map_map]
      exact hd.1
    · exact ih e he (hdistinct e he) (hnumber e he) (hentries e he)

theorem endsNumber_of_skipSpace_eq_nil {s : List Char} (hs : skipSpace s = []) :
    EndsNumber s := by
  cases s with
  | nil => simp [EndsNumber]
  | cons c s =>
    rintro d ⟨⟩
    rw [skipSpace] at hs
    split at hs
    next h =>
      simp only [Bool.or_eq_true, beq_iff_eq] at h
      rcases h with ((rfl | rfl) | rfl) | rfl <;> decide
    next => cases hs

theorem ReadsBack.read? {j : Json} (h : ReadsBack depthLimit j) (indent : Nat) {s : List Char}
    (hs : Json.skipSpace s = []) : Json.read? (j.write indent 0 ++ s) = some j := by
  have hlength : (j.write indent 0).length < (j.write indent 0 ++ s).length + 1 := by
    rw [List.length_append]
    omega
  rw [Json.read?, h.skipSpace, h.value? indent 0 hlength (endsNumber_of_skipSpace_eq_nil hs)]
  simp [hs]

/-! ### Blanks around a text -/

theorem isBlank_of_isDigit {c : Char} (h : c.isDigit) : isBlank c = false := by
  have hrange := Double.toNat_of_isDigit h
  simp only [isBlank, Bool.or_eq_false_iff, Bool.and_eq_false_iff, beq_eq_false_iff_ne,
    decide_eq_false_iff_not]
  omega

theorem IsStart.isBlank {c : Char} (h : IsStart c) : isBlank c = false := by
  rcases h with h | h
  · exact isBlank_of_isDigit h
  · simp only [List.mem_cons, List.not_mem_nil, or_false] at h
    rcases h with rfl | rfl | rfl | rfl | rfl | rfl | rfl <;> rfl

/-- The text of a value does not end in a blank. -/
theorem exists_write_eq_append (indent level : Nat) {j : Json} (hj : ∀ x, j ≠ .number (.double x)) :
    ∃ s c, j.write indent level = s ++ [c] ∧ isBlank c = false := by
  cases j with
  | null => exact ⟨['n', 'u', 'l'], 'l', rfl, rfl⟩
  | boolean b =>
    cases b with
    | false => exact ⟨['f', 'a', 'l', 's'], 'e', rfl, rfl⟩
    | true => exact ⟨['t', 'r', 'u'], 'e', rfl, rfl⟩
  | string t => exact ⟨'"' :: t.toList.flatMap escape, '"', rfl, rfl⟩
  | array items =>
    cases items with
    | nil => exact ⟨['['], ']', rfl, rfl⟩
    | cons k ks => exact ⟨_ :: _, ']', rfl, rfl⟩
  | object members =>
    cases members with
    | nil => exact ⟨['\x7b'], '\x7d', rfl, rfl⟩
    | cons m ms => exact ⟨_ :: _, '\x7d', rfl, rfl⟩
  | number n =>
    cases n with
    | double x => exact absurd rfl (hj x)
    | integer i =>
      obtain ⟨c, t, hc, -⟩ := Double.exists_cons_decimalInt i.toInt
      have hne : decimalInt i.toInt ≠ [] := hc ▸ List.cons_ne_nil c t
      refine ⟨_, _, (List.dropLast_concat_getLast hne).symm, ?_⟩
      rcases Double.isDigit_of_mem_decimalInt (List.getLast_mem hne) with h | h
      · exact isBlank_of_isDigit h
      · rw [h]
        rfl

end Json

open Text

theorem Value.readJson?_write {v : Value} (hd : v.Distinct) (hn : v.EachNumber Number.IsInteger)
    (hdepth : v.depth < 128) (indent : Nat) {s : List Char} (hs : Json.skipSpace s = []) :
    readJson? (String.ofList (v.toJson.write indent 0 ++ s)) = some v := by
  have hfinite : v.EachNumber Number.IsFinite := EachNumber.mono hn fun _ => Number.IsInteger.isFinite
  have hreads : Json.ReadsBack Json.depthLimit v.toJson :=
    Json.readsBack_toJson hd hn (Nat.le_of_lt_succ hdepth)
  rw [readJson?, String.toList_ofList, hreads.read? indent hs, Option.map_some,
    (ofJson_toJson_eq_self_iff hd).2 hfinite]

/-- The blanks at the ends of a JSON text do not count in a reference. -/
theorem Reference.parse_writeJson {v : Value} (hd : v.Distinct)
    (hn : v.EachNumber Number.IsInteger) (hdepth : v.depth < 128) (indent : Nat) :
    parse (v.writeJson indent) = .inline (String.ofList (v.toJson.write indent 0)) := by
  have hdouble : ∀ x, v.toJson ≠ .number (.double x) := by
    intro x h
    cases v with
    | null | boolean | string | sequence | mapping => cases h
    | number n =>
      cases n with
      | integer i => cases h
      | double y => exact hn.elim
  have hreads : Json.ReadsBack Json.depthLimit v.toJson :=
    Json.readsBack_toJson hd hn (Nat.le_of_lt_succ hdepth)
  obtain ⟨c, t, hc, hstart⟩ := hreads.exists_cons indent 0
  obtain ⟨u, e, he, hblank⟩ := Json.exists_write_eq_append indent 0 hdouble
  have hnewline : trimEnd (u ++ [e] ++ ['\n']) = trimEnd (u ++ [e]) := by
    simp [trimEnd, show isBlank '\n' = true from rfl]
  have htrim : trim (v.toJson.write indent 0 ++ ['\n']) = c :: t := by
    rw [trim, hc, List.cons_append, trimStart_cons_of_not_isBlank hstart.isBlank,
      ← List.cons_append, ← hc, he, hnewline, trimEnd_append_of_not_isBlank hblank]
  rw [parse, Value.writeJson, String.toList_ofList, htrim, hc]
  split
  next h => exact absurd (List.cons.inj h).1 (hstart.ne (by decide) (by decide))
  next h => exact absurd (List.cons.inj h).1 (hstart.ne (by decide) (by decide))
  next => rfl

/-- **JSON text is read back as the document it was written for**, however it is indented: if the
document has no doubles and less than 128 containers lie one in another.  The text as a reference
stands for that document too. -/
theorem Value.readJson?_writeJson {v : Value} (hd : v.Distinct)
    (hn : v.EachNumber Number.IsInteger) (hdepth : v.depth < 128) (indent : Nat) :
    readJson? (v.writeJson indent) = some v ∧
      ∀ fs memory, Reference.resolve fs memory (v.writeJson indent) = .ok v := by
  refine ⟨readJson?_write hd hn hdepth indent rfl, fun fs memory => ?_⟩
  rw [Reference.resolve, Reference.parse_writeJson hd hn hdepth, Reference.value,
    Reference.inlineValue]
  have h := readJson?_write hd hn hdepth indent (s := []) rfl
  rw [List.append_nil] at h
  rw [h]

theorem Value.readJson?_writeJson_nested :
    let v : Value := .mapping [("\"\\\u0001\u007f\u2028é", .sequence [.sequence [], .mapping [],
        .number (.integer 9223372036854775807), .number (.integer (-9223372036854775808))]),
      ("a", .string "\t\r\n\x08\x0c/"), ("", .boolean true)]
    v.Distinct ∧ v.EachNumber Number.IsInteger ∧ v.depth < 128 ∧
      readJson? (v.writeJson 3) = some v ∧
      ∀ fs memory, Reference.resolve fs memory (v.writeJson 3) = .ok v := by
  intro v
  have hd : v.Distinct := by decide
  have hn : v.EachNumber Number.IsInteger := by
    simp only [v, EachNumber, Each, EachEntry, EachItem]
    decide
  have hdepth : v.depth < 128 := by decide
  exact ⟨hd, hn, hdepth, readJson?_writeJson hd hn hdepth 3⟩

end YamlQuery
