import SolidityImports.Proofs.Json.Atoms

/-! # Reading back what was written

Values without finite binary numbers, and with no key twice in an object, are read back from what is
written for them. The reader has a bound on its steps, of which a value takes at most two for each
character that is written for it. Main statement: parsing what was printed gives the value again. -/

namespace SolidityImports.Json

open Text

/-- Values that are written without loss, at any depth: no finite binary numbers, and objects with
distinct keys. -/
inductive IsPlain : Json → Prop
  | null : IsPlain .null
  | bool (b : Bool) : IsPlain (.bool b)
  | int (n : Int) : IsPlain (.int n)
  | nan : IsPlain (.float .nan)
  | infinity (negative : Bool) : IsPlain (.float (.infinity negative))
  | text (s : Text) : IsPlain (.text s)
  | list {items : List Json} (h : ∀ v ∈ items, IsPlain v) : IsPlain (.list items)
  | object {fields : List (Text × Json)} (hkeys : (fields.map Prod.fst).Nodup)
      (h : ∀ f ∈ fields, IsPlain f.2) : IsPlain (.object fields)

/-- A style that separates by a comma and a colon, with nothing but spaces behind them. -/
structure Style.IsSpacing (style : Style) : Prop where
  betweenItems : ∃ k, style.betweenItems = ',' :: List.replicate k ' '
  afterKey : ∃ k, style.afterKey = ':' :: List.replicate k ' '

theorem Style.isSpacing_spaced : spaced.IsSpacing := ⟨⟨1, rfl⟩, ⟨1, rfl⟩⟩

theorem Style.isSpacing_compact : compact.IsSpacing := ⟨⟨0, rfl⟩, ⟨0, rfl⟩⟩

variable {style : Style} {half : Option Char} {v w : Json} {items : List Json}
  {fields : List (Text × Json)} {s rest key : Text} {c : Char} {n : Nat}

/-! ## What values start with -/

/-- What a value can start with. -/
def IsStart (c : Char) : Prop :=
  c.isDigit ∨ c ∈ ['"', '[', '{', '-', 'n', 't', 'f', 'N', 'I']

theorem IsStart.ne {d : Char} (hc : IsStart c) (hd : ¬ IsStart d) : c ≠ d := by
  rintro rfl
  exact hd hc

instance (c : Char) : Decidable (IsStart c) :=
  inferInstanceAs (Decidable (c.isDigit ∨ c ∈ ['"', '[', '{', '-', 'n', 't', 'f', 'N', 'I']))

/-- Spaces before a value are skipped. -/
theorem skip_replicate (k : Nat) (hc : IsStart c) :
    skip (List.replicate k ' ' ++ c :: s) = c :: s := by
  have hspace := hc.ne (d := ' ') (by decide)
  have htab := hc.ne (d := '\t') (by decide)
  have hnewline := hc.ne (d := '\n') (by decide)
  have hreturn := hc.ne (d := '\r') (by decide)
  induction k with
  | zero => simp [skip, hspace, htab, hnewline, hreturn]
  | succ k ih => exact ih

theorem floatText_nan : floatText .nan = .of "NaN" := by decide +kernel

theorem floatText_infinity (negative : Bool) :
    floatText (.infinity negative) = .of (if negative then "-Infinity" else "Infinity") := by
  revert negative
  decide +kernel

/-- The values that are written as a word. -/
theorem print_word (style : Style) : ∀ x ∈ words, x.2.print style = x.1 := by
  simp only [words, List.forall_mem_cons]
  exact ⟨rfl, rfl, rfl, floatText_nan, floatText_infinity false, floatText_infinity true,
    List.forall_mem_nil _⟩

theorem exists_print_eq_cons (style : Style) (hv : v.IsPlain) :
    ∃ c t, v.print style = c :: t ∧ IsStart c := by
  cases hv with
  | null => exact ⟨'n', _, rfl, by decide⟩
  | bool b => cases b <;> exact ⟨_, _, rfl, by decide⟩
  | int n =>
    obtain ⟨c, ds, htext, hc⟩ := exists_isDigit_ofNat_eq_cons n.natAbs
    rw [print, ofInt]
    split
    · exact ⟨'-', _, rfl, by decide⟩
    · exact ⟨c, ds, htext, .inl hc⟩
  | nan => exact ⟨'N', _, floatText_nan, by decide⟩
  | infinity negative =>
    rw [print, floatText_infinity]
    cases negative <;> exact ⟨_, _, rfl, by decide⟩
  | text s => exact ⟨'"', _, rfl, by decide⟩
  | list h => exact ⟨'[', _, rfl, by decide⟩
  | object hkeys h => exact ⟨'{', _, rfl, by decide⟩

/-! ## Objects with distinct keys -/

theorem setField_of_not_mem (h : key ∉ fields.map Prod.fst) :
    setField key v fields = fields ++ [(key, v)] := by
  induction fields with
  | nil => rfl
  | cons f fields ih =>
    obtain ⟨hne, hrest⟩ := List.ne_and_not_mem_of_not_mem_cons h
    rw [setField, if_neg (Ne.symm hne), ih hrest]
    rfl

theorem foldl_setField {done : List (Text × Json)} (h : ((done ++ fields).map Prod.fst).Nodup) :
    fields.foldl (fun done f ↦ setField f.1 f.2 done) done = done ++ fields := by
  induction fields generalizing done with
  | nil => rw [List.append_nil, List.foldl_nil]
  | cons f fields ih =>
    have hkey : f.1 ∉ done.map Prod.fst := by
      intro hmem
      rw [List.map_append, List.map_cons] at h
      exact (List.nodup_append.1 h).2.2 _ hmem _ List.mem_cons_self rfl
    rw [List.foldl_cons, setField_of_not_mem hkey, ih (by simpa using h), List.append_assoc]
    rfl

/-- Fields with distinct keys make the object that has them in their order. -/
theorem ofFields_of_nodup (h : (fields.map Prod.fst).Nodup) : ofFields fields = .object fields :=
  congrArg Json.object (foldl_setField h)

/-! ## Reading back -/

/-- A value is read back up to its end, in at most two steps for each character of it. -/
def ReadsBack (style : Style) (half : Option Char) (v : Json) : Prop :=
  ∀ n rest, 2 * (v.print style).length ≤ n → EndsValue rest →
    value? half n (v.print style ++ rest) = some (v, rest)

theorem value?_of_atom (hc : c ∉ ['"', '[', '{']) :
    value? half (n + 1) (c :: s) = atom? (c :: s) := by
  simp only [List.mem_cons, List.not_mem_nil, or_false, not_or] at hc
  simp [value?, hc]

/-- What is read as an atom is read back. -/
theorem readsBack_of_atom?
    (h : ∀ rest, EndsValue rest → atom? (v.print style ++ rest) = some (v, rest))
    (hstart : ∃ c t, v.print style = c :: t ∧ c ∉ ['"', '[', '{']) : ReadsBack style half v := by
  intro n rest hn hrest
  obtain ⟨c, t, htext, hc⟩ := hstart
  have hatom := h rest hrest
  rw [htext] at hn hatom ⊢
  cases n with
  | zero => simp at hn
  | succ n => rw [List.cons_append, value?_of_atom hc, ← List.cons_append, hatom]

theorem readsBack_word (x : Text × Json) (hx : x ∈ words) : ReadsBack style half x.2 := by
  refine readsBack_of_atom? (fun rest _ ↦ ?_) ?_
  · rw [print_word style x hx]
    exact atom?_word x hx
  · rw [print_word style x hx]
    exact exists_word_eq_cons x hx

theorem readsBack_int (k : Int) : ReadsBack style half (.int k) := by
  refine readsBack_of_atom? (fun rest hrest ↦ atom?_ofInt k hrest) ?_
  obtain ⟨c, ds, htext, hc⟩ := exists_isDigit_ofNat_eq_cons k.natAbs
  rw [print, ofInt]
  split
  · exact ⟨'-', _, rfl, by decide⟩
  · refine ⟨c, ds, htext, fun hmem ↦ ?_⟩
    have hdigit : ∀ c ∈ ['"', '[', '{'], c.isDigit = false := List.all_iff_forall_prop.1 (by decide)
    simp [hdigit c hmem] at hc

theorem readsBack_text (s : Text) : ReadsBack style half (.text s) := by
  intro n rest hn _
  cases n with
  | zero => simp [print, stringText] at hn
  | succ n => simp [print, stringText, value?, string?_flatMap_charText]

theorem exists_printItems_eq_cons (style : Style) (items : List Json) (hv : v.IsPlain) :
    ∃ c t, printItems style (v :: items) = c :: t ∧ IsStart c := by
  obtain ⟨c, t, htext, hc⟩ := exists_print_eq_cons style hv
  cases items with
  | nil => exact ⟨c, t, htext, hc⟩
  | cons w items => exact ⟨c, _, by rw [printItems, htext, List.append_assoc]; rfl, hc⟩

/-- The items of a list are read back up to its closing bracket. -/
theorem items?_printItems (hstyle : style.IsSpacing) (hplain : ∀ v ∈ items, v.IsPlain)
    (h : ∀ v ∈ items, ReadsBack style half v) (hitems : items ≠ [])
    (hn : 2 * (printItems style items).length < n) :
    items? half n (printItems style items ++ ']' :: rest) = some (items, rest) := by
  induction items generalizing n with
  | nil => contradiction
  | cons v items ih =>
    cases n with
    | zero => contradiction
    | succ n =>
    cases items with
    | nil =>
      have hread : value? half n (printItems style [v] ++ ']' :: rest) = some (v, ']' :: rest) :=
        h v List.mem_cons_self n _ (Nat.le_of_lt_succ hn) (by simp [EndsValue])
      have hskip : skip (']' :: rest) = ']' :: rest := rfl
      simp [items?, hread, hskip]
    | cons w items =>
      obtain ⟨k, hbetween⟩ := hstyle.betweenItems
      obtain ⟨hplainV, hplain⟩ := List.forall_mem_cons.1 hplain
      obtain ⟨hv, h⟩ := List.forall_mem_cons.1 h
      rw [printItems, hbetween] at hn ⊢
      simp only [List.length_append, List.length_cons] at hn
      obtain ⟨c, t, htext, hc⟩ := exists_printItems_eq_cons style items (hplain w List.mem_cons_self)
      have hread := hv n (',' :: (List.replicate k ' ' ++
        (printItems style (w :: items) ++ ']' :: rest))) (by omega) (by simp [EndsValue])
      have hcomma : ∀ s, skip (',' :: s) = ',' :: s := fun _ ↦ rfl
      have hspaces : skip (List.replicate k ' ' ++ (printItems style (w :: items) ++ ']' :: rest)) =
          printItems style (w :: items) ++ ']' :: rest := by
        rw [htext]
        exact skip_replicate k hc
      have hmore := ih hplain h (List.cons_ne_nil w items) (n := n) (by omega)
      simp [items?, hread, hcomma, hspaces, hmore]

theorem readsBack_list (hstyle : style.IsSpacing) (hplain : ∀ v ∈ items, v.IsPlain)
    (h : ∀ v ∈ items, ReadsBack style half v) : ReadsBack style half (.list items) := by
  intro n rest hn _
  simp only [print, List.length_append, List.length_cons, List.length_nil] at hn
  cases n with
  | zero => simp at hn
  | succ n =>
  cases items with
  | nil => rfl
  | cons v items =>
    obtain ⟨c, t, htext, hc⟩ := exists_printItems_eq_cons style items (hplain v List.mem_cons_self)
    have hread : items? half n (printItems style (v :: items) ++ ']' :: rest) =
        some (v :: items, rest) :=
      items?_printItems hstyle hplain h (List.cons_ne_nil v items) (by omega)
    have hskip : skip (c :: (t ++ ']' :: rest)) = c :: (t ++ ']' :: rest) := skip_replicate 0 hc
    rw [htext, List.cons_append] at hread
    simp [print, htext, value?, hskip, hc.ne (d := ']') (by decide), hread]

/-- A field is read back; what follows it tells whether there are more. -/
theorem fields?_field (hstyle : style.IsSpacing) (hplain : v.IsPlain) (hv : ReadsBack style half v)
    (hn : 2 * (v.print style).length ≤ n) (hrest : EndsValue rest) :
    fields? half (n + 1) (stringText style key ++ style.afterKey ++ print style v ++ rest) =
      match skip rest with
      | '}' :: s => some ([(key, v)], s)
      | ',' :: s => (fields? half n (skip s)).bind fun (fs, s) ↦ some ((key, v) :: fs, s)
      | _ => none := by
  obtain ⟨k, hafter⟩ := hstyle.afterKey
  obtain ⟨c, t, htext, hc⟩ := exists_print_eq_cons style hplain
  have hread := hv n rest hn hrest
  have hcolon : ∀ s, skip (':' :: s) = ':' :: s := fun _ ↦ rfl
  have hspaces : skip (List.replicate k ' ' ++ (print style v ++ rest)) = print style v ++ rest := by
    rw [htext]
    exact skip_replicate k hc
  simp only [fields?, stringText, hafter, List.append_assoc, List.cons_append, List.nil_append,
    after?, if_true, Option.bind_eq_bind, Option.bind_some, string?_flatMap_charText, hcolon,
    hspaces, hread]
  rfl

theorem exists_printFields_eq_cons (style : Style) (f : Text × Json) (fields : List (Text × Json)) :
    ∃ t, printFields style (f :: fields) = '"' :: t := by
  cases fields with
  | nil => exact ⟨_, rfl⟩
  | cons g fields => exact ⟨_, rfl⟩

/-- The fields of an object are read back up to its closing brace. -/
theorem fields?_printFields (hstyle : style.IsSpacing) (hplain : ∀ f ∈ fields, f.2.IsPlain)
    (h : ∀ f ∈ fields, ReadsBack style half f.2) (hfields : fields ≠ [])
    (hn : 2 * (printFields style fields).length < n) :
    fields? half n (printFields style fields ++ '}' :: rest) = some (fields, rest) := by
  induction fields generalizing n with
  | nil => contradiction
  | cons f fields ih =>
    obtain ⟨key, v⟩ := f
    cases n with
    | zero => contradiction
    | succ n =>
    obtain ⟨hplainV, hplain⟩ := List.forall_mem_cons.1 hplain
    obtain ⟨hv, h⟩ := List.forall_mem_cons.1 h
    dsimp only at hplainV hv
    cases fields with
    | nil =>
      rw [printFields] at hn ⊢
      simp only [List.length_append] at hn
      rw [fields?_field hstyle hplainV hv (by omega) (by simp [EndsValue])]
      rfl
    | cons g fields =>
      obtain ⟨k, hbetween⟩ := hstyle.betweenItems
      obtain ⟨t, htext⟩ := exists_printFields_eq_cons style g fields
      rw [printFields, hbetween] at hn ⊢
      simp only [List.length_append, List.length_cons] at hn
      have hmore := ih hplain h (List.cons_ne_nil g fields) (n := n) (by omega)
      have hspaces : skip (List.replicate k ' ' ++ (printFields style (g :: fields) ++ '}' :: rest)) =
          printFields style (g :: fields) ++ '}' :: rest := by
        rw [htext]
        exact skip_replicate k (by decide)
      have hcomma : ∀ s, skip (',' :: s) = ',' :: s := fun _ ↦ rfl
      rw [List.append_assoc, List.append_assoc,
        fields?_field hstyle hplainV hv (by omega) (by simp [EndsValue])]
      simp [hcomma, hspaces, hmore]

theorem readsBack_object (hstyle : style.IsSpacing) (hkeys : (fields.map Prod.fst).Nodup)
    (hplain : ∀ f ∈ fields, f.2.IsPlain) (h : ∀ f ∈ fields, ReadsBack style half f.2) :
    ReadsBack style half (.object fields) := by
  intro n rest hn _
  simp only [print, List.length_append, List.length_cons, List.length_nil] at hn
  cases n with
  | zero => simp at hn
  | succ n =>
  cases fields with
  | nil => rfl
  | cons f fields =>
    obtain ⟨t, htext⟩ := exists_printFields_eq_cons style f fields
    have hread : fields? half n (printFields style (f :: fields) ++ '}' :: rest) =
        some (f :: fields, rest) :=
      fields?_printFields hstyle hplain h (List.cons_ne_nil f fields) (by omega)
    have hskip : skip ('"' :: (t ++ '}' :: rest)) = '"' :: (t ++ '}' :: rest) := rfl
    rw [htext, List.cons_append] at hread
    simp [print, htext, value?, hskip, hread, ofFields_of_nodup hkeys]

/-- Every value without loss is read back. -/
theorem IsPlain.readsBack (hstyle : style.IsSpacing) (hv : v.IsPlain) : ReadsBack style half v := by
  induction hv with
  | null => exact readsBack_word (.of "null", .null) (by simp [words])
  | bool b =>
    cases b with
    | true => exact readsBack_word (.of "true", .bool true) (by simp [words])
    | false => exact readsBack_word (.of "false", .bool false) (by simp [words])
  | int n => exact readsBack_int n
  | nan => exact readsBack_word (.of "NaN", .float .nan) (by simp [words])
  | infinity negative =>
    cases negative with
    | true => exact readsBack_word (.of "-Infinity", .float (.infinity true)) (by simp [words])
    | false => exact readsBack_word (.of "Infinity", .float (.infinity false)) (by simp [words])
  | text s => exact readsBack_text s
  | list h ih => exact readsBack_list hstyle h ih
  | object hkeys h ih => exact readsBack_object hstyle hkeys h ih

/-- Parsing what was printed gives the value again. -/
theorem parse?_print (hstyle : style.IsSpacing) (hv : v.IsPlain) :
    parse? half (v.print style) = some v := by
  obtain ⟨c, t, htext, hc⟩ := exists_print_eq_cons style hv
  have hread : value? half (2 * (v.print style).length + 2) (v.print style ++ []) = some (v, []) :=
    hv.readsBack hstyle _ [] (by omega) (by simp [EndsValue])
  have hskip : skip (v.print style) = v.print style := by
    rw [htext]
    exact skip_replicate 0 hc
  have hend : skip [] = [] := rfl
  rw [List.append_nil] at hread
  simp [parse?, hskip, hread, hend]

end SolidityImports.Json
