import SolidityImports.Proofs.Json.RoundTrip
import SolidityImports.Proofs.Text.Encoding

/-! # Reading back the encoding

The bytes of a text in UTF-8 show no other encoding if the text starts in ASCII and holds no NUL, and
none of them are taken for half of a surrogate pair. Main statement: such a text is decoded from its
bytes. -/

namespace SolidityImports

open Text

variable {s : Text} {c : Char} {b : UInt8} {bytes rest : Bytes}

namespace Json

/-! ## Halves of surrogate pairs -/

theorem replaceHalves_cons (hb : b ≠ 0xED) : replaceHalves (b :: rest) = b :: replaceHalves rest := by
  rw [replaceHalves]
  rintro _ _ _ rfl
  contradiction

theorem replaceHalves_append (h : ∀ b ∈ bytes, b ≠ 0xED) :
    replaceHalves (bytes ++ rest) = bytes ++ replaceHalves rest := by
  induction bytes with
  | nil => rfl
  | cons b bytes ih =>
    obtain ⟨hb, hbytes⟩ := List.forall_mem_cons.1 h
    rw [List.cons_append, replaceHalves_cons hb, ih hbytes, List.cons_append]

/-- A byte below `A0` makes no half of a pair. -/
theorem replaceHalves_cons_cons (hb : b.toNat < 0xA0) :
    replaceHalves (0xED :: b :: rest) = 0xED :: replaceHalves (b :: rest) := by
  have hlow : ¬ 0xA0 ≤ b := by simpa [UInt8.le_iff_toNat_le] using hb
  cases rest with
  | nil => rfl
  | cons d rest => rw [replaceHalves, if_neg fun h ↦ hlow h.1]

/-- No half of a surrogate pair is in the bytes of a text. -/
theorem replaceHalves_utf8 (s : Text) : replaceHalves s.utf8 = s.utf8 := by
  induction s with
  | nil => rfl
  | cons c s ih =>
    have hcons : utf8 (c :: s) = String.utf8EncodeChar c ++ utf8 s := rfl
    rw [hcons]
    rcases utf8EncodeChar_cases c with
      ⟨hascii, hbytes⟩ | ⟨lead, next, bytes, hbytes, -, hnext, htail⟩
    · have hne : UInt8.ofNat c.toNat ≠ 0xED := by
        intro heq
        have hbyte : c.toNat % 256 = (0xED : UInt8).toNat := congrArg UInt8.toNat heq
        have hvalue : (0xED : UInt8).toNat = 0xED := rfl
        omega
      rw [hbytes, List.singleton_append, replaceHalves_cons hne, ih]
    · have hpass : ∀ b ∈ next :: bytes, b ≠ 0xED := by
        rintro b hb rfl
        exact absurd (htail _ hb).2 (by decide)
      have hrest : replaceHalves (next :: (bytes ++ utf8 s)) = next :: (bytes ++ utf8 s) := by
        rw [← List.cons_append, replaceHalves_append hpass, ih]
      rw [hbytes, List.cons_append, List.cons_append]
      by_cases hlead : lead = 0xED
      · rw [hlead, replaceHalves_cons_cons (hnext hlead), hrest]
      · rw [replaceHalves_cons hlead, hrest]

/-! ## The encoding that the first bytes show -/

/-- Where no byte is zero and the first one is ASCII, nothing but UTF-8 is shown. -/
theorem decode?_eq_ofBytes8? (hzero : 0 ∉ bytes) (hfirst : ∀ b ∈ bytes.head?, b.toNat < 0x80) :
    decode? bytes = ofBytes8? bytes := by
  -- A byte order mark starts with a byte that is zero or not ASCII.
  have hmark : ∀ b marks, b = 0 ∨ 0x80 ≤ b.toNat → ¬ (b :: marks).isPrefixOf bytes := by
    intro b marks hb hprefix
    obtain ⟨rest, rfl⟩ := List.isPrefixOf_iff_prefix.1 hprefix
    rcases hb with rfl | hb
    · exact hzero List.mem_cons_self
    · exact absurd (hfirst b rfl) (Nat.not_lt.2 hb)
  unfold decode?
  rw [if_neg (hmark _ _ (.inl rfl)), if_neg (hmark _ _ (.inr (by decide))),
    if_neg (hmark _ _ (.inr (by decide))), if_neg (hmark _ _ (.inr (by decide))),
    if_neg (hmark _ _ (.inr (by decide)))]
  split
  · rename_i first second _ _ _
    have hne : first ≠ 0 := fun heq ↦ hzero (heq ▸ List.mem_cons_self)
    have hne' : second ≠ 0 := fun heq ↦ hzero (heq ▸ List.mem_cons_of_mem _ List.mem_cons_self)
    rw [if_neg hne, if_neg hne']
  · rename_i first second
    have hne : first ≠ 0 := fun heq ↦ hzero (heq ▸ List.mem_cons_self)
    have hne' : second ≠ 0 := fun heq ↦ hzero (heq ▸ List.mem_cons_of_mem _ List.mem_cons_self)
    rw [if_neg hne, if_neg hne']
  · rfl

/-- A text that starts in ASCII and holds no NUL is decoded from its bytes. -/
theorem decode?_utf8 (hnul : '\x00' ∉ s) (hfirst : ∀ c ∈ s.head?, c.toNat < 0x80) :
    decode? s.utf8 = some s := by
  have hbyte : ∀ b ∈ s.utf8.head?, b.toNat < 0x80 := by
    cases s with
    | nil => nofun
    | cons c s =>
      have hc : c.toNat < 0x80 := hfirst c rfl
      rintro b hb
      rw [utf8, List.flatMap_cons, utf8EncodeChar_of_lt hc] at hb
      obtain rfl : UInt8.ofNat c.toNat = b := Option.some.inj hb
      exact Nat.lt_of_le_of_lt (Nat.mod_le _ _) hc
  rw [decode?_eq_ofBytes8? (zero_not_mem_utf8 hnul) hbyte, ofBytes8?, replaceHalves_utf8,
    ofUtf8?_utf8]

/-! ## The characters that are written -/

variable {style : Style} {v : Json}

/-- The printing characters of ASCII, the space included. -/
def IsPrinting (c : Char) : Prop := 0x20 ≤ c.toNat ∧ c.toNat ≤ 0x7E

instance (c : Char) : Decidable (IsPrinting c) :=
  inferInstanceAs (Decidable (0x20 ≤ c.toNat ∧ c.toNat ≤ 0x7E))

/-- What a style writes: no control characters, and nothing but printing characters if it escapes all
others. -/
def Style.Writes (style : Style) (c : Char) : Prop :=
  0x20 ≤ c.toNat ∧ (style.onlyAscii → c.toNat ≤ 0x7E)

theorem IsPrinting.writes (h : IsPrinting c) : style.Writes c := ⟨h.1, fun _ ↦ h.2⟩

theorem isPrinting_of_isDigit (h : c.isDigit) : IsPrinting c := by
  simp only [Char.isDigit, Bool.and_eq_true, decide_eq_true_eq, ge_iff_le,
    UInt32.le_iff_toNat_le] at h
  exact ⟨Nat.le_trans (by decide) h.1, Nat.le_trans h.2 (by decide)⟩

theorem isPrinting_of_mem_hexDigits {width n : Nat} (h : c ∈ hexDigits width n) : IsPrinting c := by
  obtain ⟨k, hk, rfl⟩ := exists_of_mem_hexDigits h
  have hdigit : ∀ k : Fin 16, IsPrinting (hexDigit k) := by decide
  exact hdigit ⟨k, hk⟩

theorem isPrinting_of_mem_unitEscape {n : Nat} (h : c ∈ unitEscape n) : IsPrinting c := by
  rw [unitEscape, List.mem_cons, List.mem_cons] at h
  rcases h with rfl | rfl | h
  · decide
  · decide
  · exact isPrinting_of_mem_hexDigits h

theorem writes_of_mem_charText {d : Char} (h : d ∈ charText style c) : style.Writes d := by
  by_cases hc : c ∈ letters
  · obtain ⟨e, he, htext⟩ := charText_of_mem style c hc
    have hprinting : ∀ d ∈ '\\' :: ['"', '\\', 'b', 'f', 'n', 'r', 't'], IsPrinting d :=
      List.all_iff_forall_prop.1 (by decide)
    rw [htext] at h
    rcases List.mem_cons.1 h with rfl | h
    · exact (hprinting _ List.mem_cons_self).writes
    · obtain rfl := List.mem_singleton.1 h
      exact (hprinting _ (List.mem_cons_of_mem _ he)).writes
  · rw [charText_of_not_mem hc] at h
    split at h
    · split at h
      · exact (isPrinting_of_mem_unitEscape h).writes
      · rcases List.mem_append.1 h with h | h
        · exact (isPrinting_of_mem_unitEscape h).writes
        · exact (isPrinting_of_mem_unitEscape h).writes
    · rename_i hplain
      obtain rfl := List.mem_singleton.1 h
      rw [not_or, not_and] at hplain
      exact ⟨Nat.le_of_not_lt hplain.1, fun hascii ↦ Nat.le_of_not_lt (hplain.2 hascii)⟩

theorem writes_of_mem_stringText {d : Char} (h : d ∈ stringText style s) : style.Writes d := by
  have hquote : IsPrinting '"' := by decide
  rw [stringText, List.cons_append, List.mem_cons, List.mem_append, List.mem_singleton,
    List.mem_flatMap] at h
  rcases h with rfl | ⟨c, -, h⟩ | rfl
  · exact hquote.writes
  · exact writes_of_mem_charText h
  · exact hquote.writes

theorem isPrinting_of_mem_ofInt {k : Int} (h : c ∈ ofInt k) : IsPrinting c := by
  unfold ofInt at h
  split at h
  · rcases List.mem_cons.1 h with rfl | h
    · decide
    · exact isPrinting_of_isDigit (isDigit_of_mem_ofNat h)
  · exact isPrinting_of_isDigit (isDigit_of_mem_ofNat h)

theorem isPrinting_of_mem_word : ∀ x ∈ words, ∀ c ∈ x.1, IsPrinting c := by
  simp only [words, List.forall_mem_cons]
  refine ⟨?_, ?_, ?_, ?_, ?_, ?_, List.forall_mem_nil _⟩
  all_goals exact List.all_iff_forall_prop.1 (by decide)

theorem Style.IsSpacing.writes_of_mem (hstyle : style.IsSpacing)
    (h : c ∈ style.betweenItems ∨ c ∈ style.afterKey) : style.Writes c := by
  obtain ⟨k, hbetween⟩ := hstyle.betweenItems
  obtain ⟨j, hafter⟩ := hstyle.afterKey
  have hprinting : ∀ c ∈ [',', ':', ' '], IsPrinting c := List.all_iff_forall_prop.1 (by decide)
  refine IsPrinting.writes (hprinting c ?_)
  rw [hbetween, hafter, List.mem_cons, List.mem_cons, List.mem_replicate, List.mem_replicate] at h
  rcases h with (rfl | ⟨-, rfl⟩) | (rfl | ⟨-, rfl⟩) <;> decide

theorem writes_of_mem_printItems (hstyle : style.IsSpacing) {items : List Json}
    (h : ∀ v ∈ items, ∀ c ∈ v.print style, style.Writes c) :
    ∀ c ∈ printItems style items, style.Writes c := by
  induction items with
  | nil => nofun
  | cons v items ih =>
    obtain ⟨hv, h⟩ := List.forall_mem_cons.1 h
    cases items with
    | nil => exact hv
    | cons w items =>
      intro c hc
      rw [printItems, List.mem_append, List.mem_append] at hc
      rcases hc with (hc | hc) | hc
      · exact hv c hc
      · exact hstyle.writes_of_mem (.inl hc)
      · exact ih h c hc

theorem writes_of_mem_printFields (hstyle : style.IsSpacing) {fields : List (Text × Json)}
    (h : ∀ f ∈ fields, ∀ c ∈ f.2.print style, style.Writes c) :
    ∀ c ∈ printFields style fields, style.Writes c := by
  induction fields with
  | nil => nofun
  | cons f fields ih =>
    obtain ⟨key, v⟩ := f
    obtain ⟨hv, h⟩ := List.forall_mem_cons.1 h
    have hfield : ∀ c ∈ stringText style key ++ style.afterKey ++ print style v, style.Writes c := by
      intro c hc
      rw [List.mem_append, List.mem_append] at hc
      rcases hc with (hc | hc) | hc
      · exact writes_of_mem_stringText hc
      · exact hstyle.writes_of_mem (.inr hc)
      · exact hv c hc
    cases fields with
    | nil => exact hfield
    | cons g fields =>
      intro c hc
      rw [printFields, List.mem_append, List.mem_append] at hc
      rcases hc with (hc | hc) | hc
      · exact hfield c hc
      · exact hstyle.writes_of_mem (.inl hc)
      · exact ih h c hc

/-- The text of a value holds what its style writes. -/
theorem IsPlain.writes_of_mem_print (hstyle : style.IsSpacing) (hv : v.IsPlain) :
    ∀ c ∈ v.print style, style.Writes c := by
  have hbracket : ∀ c ∈ ['[', ']', '{', '}'], style.Writes c := by
    have hprinting : ∀ c ∈ ['[', ']', '{', '}'], IsPrinting c :=
      List.all_iff_forall_prop.1 (by decide)
    exact fun c hc ↦ (hprinting c hc).writes
  have hword : ∀ x ∈ words, ∀ c ∈ x.2.print style, style.Writes c := by
    intro x hx c hc
    rw [print_word style x hx] at hc
    exact (isPrinting_of_mem_word x hx c hc).writes
  induction hv with
  | null => exact hword (.of "null", .null) (by simp [words])
  | bool b =>
    cases b with
    | true => exact hword (.of "true", .bool true) (by simp [words])
    | false => exact hword (.of "false", .bool false) (by simp [words])
  | int k => exact fun c hc ↦ (isPrinting_of_mem_ofInt hc).writes
  | nan => exact hword (.of "NaN", .float .nan) (by simp [words])
  | infinity negative =>
    cases negative with
    | true => exact hword (.of "-Infinity", .float (.infinity true)) (by simp [words])
    | false => exact hword (.of "Infinity", .float (.infinity false)) (by simp [words])
  | text s => exact fun c hc ↦ writes_of_mem_stringText hc
  | list h ih =>
    intro c hc
    rw [print, List.cons_append, List.mem_cons, List.mem_append, List.mem_singleton] at hc
    rcases hc with rfl | hc | rfl
    · exact hbracket '[' (by decide)
    · exact writes_of_mem_printItems hstyle ih c hc
    · exact hbracket ']' (by decide)
  | object hkeys h ih =>
    intro c hc
    rw [print, List.cons_append, List.mem_cons, List.mem_append, List.mem_singleton] at hc
    rcases hc with rfl | hc | rfl
    · exact hbracket '{' (by decide)
    · exact writes_of_mem_printFields hstyle ih c hc
    · exact hbracket '}' (by decide)

/-- The text of a value is decoded from its bytes. -/
theorem IsPlain.decode?_print (hstyle : style.IsSpacing) (hv : v.IsPlain) :
    decode? (v.print style).utf8 = some (v.print style) := by
  obtain ⟨c, t, htext, hc⟩ := exists_print_eq_cons style hv
  refine decode?_utf8 ?_ ?_
  · intro hnul
    exact absurd (hv.writes_of_mem_print hstyle _ hnul).1 (by decide)
  · rw [htext]
    rintro _ ⟨⟩
    rcases hc with hdigit | hc
    · exact Nat.lt_of_le_of_lt (isPrinting_of_isDigit hdigit).2 (by decide)
    · have hascii : ∀ c ∈ ['"', '[', '{', '-', 'n', 't', 'f', 'N', 'I'], c.toNat < 0x80 :=
        List.all_iff_forall_prop.1 (by decide)
      exact hascii c hc

/-- Where all others are escaped, the bytes of a value are printing characters. -/
theorem IsPlain.byte_range (hstyle : style.IsSpacing) (hascii : style.onlyAscii) (hv : v.IsPlain) :
    ∀ b ∈ (v.print style).utf8, 0x20 ≤ b.toNat ∧ b.toNat ≤ 0x7E := by
  intro b hb
  obtain ⟨c, hc, hbyte⟩ := List.mem_flatMap.1 hb
  obtain ⟨hlow, hhigh⟩ := hv.writes_of_mem_print hstyle c hc
  have hlt : c.toNat < 0x80 := Nat.lt_of_le_of_lt (hhigh hascii) (by decide)
  rw [utf8EncodeChar_of_lt hlt, List.mem_singleton] at hbyte
  have hvalue : b.toNat = c.toNat := by
    rw [hbyte]
    exact Nat.mod_eq_of_lt (Nat.lt_trans hlt (by decide))
  rw [hvalue]
  exact ⟨hlow, hhigh hascii⟩

end Json

end SolidityImports
