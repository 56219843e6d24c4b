import FieldSieve.Text.Hex

/-!
# Forms of text can be told apart

Nothing that is written in digits or between quotation marks looks like anything else written so.
For digits this is a matter of the base: a number is its last digit and what is in front of it.

For quoted text it takes an argument, since a form is a row of escapes without anything between
them.  An escape that does not start with a backslash is one character that stands for itself.
Behind a backslash the next character tells what follows: the letter of a code point, whose digits
run up to a brace, or a name, which is the whole rest of the escape (`escape_cases`).  So no escape
is the beginning of another one (`escape_append_inj`), and since none starts with the mark, the
first mark where an escape could start is the end (`flatMap_escape_inj`).
-/
namespace FieldSieve.Text

variable {c d mark : Char} {cs ds rest more : List Char} {base m n : Nat}

/-- A character that stands in neither of two rows shows where they end. -/
theorem append_cons_inj (hcs : c ∉ cs) (hds : c ∉ ds) (h : cs ++ c :: rest = ds ++ c :: more) :
    cs = ds ∧ rest = more := by
  rcases List.append_eq_append_iff.mp h with ⟨late, rfl, hlate⟩ | ⟨late, rfl, hlate⟩
  · rcases late with _ | ⟨d, late⟩
    · exact ⟨(List.append_nil _).symm, (List.cons.inj hlate).2⟩
    · simp [(List.cons.inj hlate).1] at hds
  · rcases late with _ | ⟨d, late⟩
    · exact ⟨List.append_nil _, (List.cons.inj hlate).2.symm⟩
    · simp [(List.cons.inj hlate).1] at hcs

/-! ### Digits -/

theorem digitChar_inj (hm : m < 16) (hn : n < 16) (h : m.digitChar = n.digitChar) : m = n := by
  have hall : ∀ m < 16, ∀ n < 16, m.digitChar = n.digitChar → m = n := by decide
  exact hall m hm n hn h

theorem exists_digitChar_of_mem_toDigits (hbase : 1 < base) (h : c ∈ Nat.toDigits base n) :
    ∃ digit < base, c = digit.digitChar := by
  induction n using Nat.strongRecOn with
  | ind n ih =>
    rw [Nat.toDigits_eq_if hbase] at h
    split at h
    · next hn => exact ⟨n, hn, List.mem_singleton.mp h⟩
    · next hn =>
      rcases List.mem_append.mp h with h | h
      · exact ih _ (Nat.div_lt_self (by omega) hbase) h
      · exact ⟨n % base, Nat.mod_lt _ (by omega), List.mem_singleton.mp h⟩

theorem toDigits_inj (hbase : 1 < base) (hdigits : base ≤ 16)
    (h : Nat.toDigits base m = Nat.toDigits base n) : m = n := by
  induction m using Nat.strongRecOn generalizing n with
  | ind m ih =>
    by_cases hm : m < base <;> by_cases hn : n < base
    · rw [Nat.toDigits_of_lt_base hm, Nat.toDigits_of_lt_base hn] at h
      exact digitChar_inj (by omega) (by omega) (List.singleton_inj.mp h)
    · -- One digit is not several.
      rw [Nat.toDigits_of_lt_base hm, Nat.toDigits_of_base_le hbase (Nat.le_of_not_lt hn)] at h
      exact absurd (List.append_eq_singleton_iff.mp h.symm) (by simp [Nat.toDigits_ne_nil])
    · rw [Nat.toDigits_of_base_le hbase (Nat.le_of_not_lt hm), Nat.toDigits_of_lt_base hn] at h
      exact absurd (List.append_eq_singleton_iff.mp h) (by simp [Nat.toDigits_ne_nil])
    · rw [Nat.toDigits_of_base_le hbase (Nat.le_of_not_lt hm),
        Nat.toDigits_of_base_le hbase (Nat.le_of_not_lt hn)] at h
      obtain ⟨hfront, hlast⟩ := List.append_inj' h rfl
      have hmod : m % base = n % base :=
        digitChar_inj (Nat.lt_of_lt_of_le (Nat.mod_lt m (by omega)) hdigits)
          (Nat.lt_of_lt_of_le (Nat.mod_lt n (by omega)) hdigits) (List.singleton_inj.mp hlast)
      have hdiv := ih _ (Nat.div_lt_self (by omega) hbase) hfront
      rw [← Nat.div_add_mod m base, ← Nat.div_add_mod n base, hdiv, hmod]

namespace Hex

theorem encodeByte_inj {b other : UInt8} (h : encodeByte b = encodeByte other) : b = other := by
  have hb := b.toNat_lt
  have hother := other.toNat_lt
  simp only [encodeByte, List.cons.injEq, and_true] at h
  have hdiv := digitChar_inj (by omega) (by omega) h.1
  have hmod := digitChar_inj (by omega) (by omega) h.2
  apply UInt8.toNat_inj.mp
  omega

theorem flatMap_encodeByte_inj {bytes others : Bytes}
    (h : bytes.flatMap encodeByte = others.flatMap encodeByte) : bytes = others := by
  induction bytes generalizing others with
  | nil =>
    rcases others with _ | ⟨other, others⟩
    · rfl
    · cases h
  | cons b bytes ih =>
    rcases others with _ | ⟨other, others⟩
    · cases h
    · obtain ⟨hbyte, hrest⟩ := List.append_inj h rfl
      rw [encodeByte_inj hbyte, ih hrest]

theorem encode_inj {bytes others : Bytes} (h : encode bytes = encode others) : bytes = others :=
  flatMap_encodeByte_inj (String.ofList_injective h)

end Hex

/-- A text is its bytes. -/
theorem Utf8.toByteArray_of_decode? {bytes : Bytes} {text : String}
    (h : Utf8.decode? bytes = some text) : text.toByteArray = ⟨bytes.toArray⟩ := by
  unfold decode? String.fromUTF8? at h
  split at h <;> cases h
  rfl

theorem Utf8.decode?_inj {bytes others : Bytes} {text : String}
    (h : Utf8.decode? bytes = some text) (hothers : Utf8.decode? others = some text) :
    bytes = others := by
  have hsame := (toByteArray_of_decode? h).symm.trans (toByteArray_of_decode? hothers)
  exact List.toArray_inj (ByteArray.mk.inj hsame)

/-! ### Quoted text -/

/-- What a name behind a backslash stands for. -/
def named : Char → Char
  | '0' => '\x00'
  | 't' => '\t'
  | 'n' => '\n'
  | 'r' => '\r'
  | c => c

/-- An escape is a character that stands for itself, or a backslash and a name, or a code point. -/
theorem escape_cases (hmark : mark = '"' ∨ mark = '\'') (c : Char) :
    (escape mark c = [c] ∧ c ≠ '\\' ∧ c ≠ mark ∧ isHidden c = false) ∨
    (∃ name ∈ ['0', 't', 'n', 'r', '\\', mark], named name = c ∧ escape mark c = ['\\', name]) ∨
    escape mark c = escapeCodePoint c := by
  by_cases hnull : c = '\x00'
  · exact .inr (.inl ⟨'0', by simp, hnull.symm, by simp [escape, hnull]⟩)
  by_cases htab : c = '\t'
  · exact .inr (.inl ⟨'t', by simp, htab.symm, by simp [escape, htab]⟩)
  by_cases hfeed : c = '\n'
  · exact .inr (.inl ⟨'n', by simp, hfeed.symm, by simp [escape, hfeed]⟩)
  by_cases hreturn : c = '\r'
  · exact .inr (.inl ⟨'r', by simp, hreturn.symm, by simp [escape, hreturn]⟩)
  by_cases hown : c = '\\' ∨ c = mark
  · refine .inr (.inl ⟨c, ?_, ?_, by simp [escape, hnull, htab, hfeed, hreturn, hown]⟩)
    · rcases hown with rfl | rfl <;> simp
    · rcases hown with rfl | rfl
      · rfl
      · rcases hmark with rfl | rfl <;> rfl
  by_cases hhidden : isHidden c
  · exact .inr (.inr (by simp [escape, hnull, htab, hfeed, hreturn, hown, hhidden]))
  · obtain ⟨hplain, hfree⟩ := not_or.mp hown
    exact .inl ⟨by simp [escape, hnull, htab, hfeed, hreturn, hplain, hfree, hhidden], hplain,
      hfree, by simpa using hhidden⟩

theorem escapeCodePoint_append_inj (h : escapeCodePoint c ++ rest = escapeCodePoint d ++ more) :
    c = d ∧ rest = more := by
  have hbrace : ∀ n, '\x7d' ∉ Nat.toDigits 16 n := by
    intro n hmem
    obtain ⟨digit, -, hdigit⟩ := exists_digitChar_of_mem_toDigits (by decide) hmem
    exact Nat.digitChar_ne '\x7d' rfl hdigit.symm
  simp only [escapeCodePoint, List.append_assoc, List.append_cancel_left_eq,
    List.singleton_append] at h
  obtain ⟨hdigits, hrest⟩ := append_cons_inj (hbrace _) (hbrace _) h
  exact ⟨Char.toNat_inj.mp (toDigits_inj (by decide) (by decide) hdigits), hrest⟩

/-- **No escape is the beginning of another one.** -/
theorem escape_append_inj (hmark : mark = '"' ∨ mark = '\'')
    (h : escape mark c ++ rest = escape mark d ++ more) : c = d ∧ rest = more := by
  have hletter : ∀ name ∈ ['0', 't', 'n', 'r', '\\', mark], name ≠ 'u' := by
    rcases hmark with rfl | rfl <;> simp
  rcases escape_cases hmark c with ⟨hc, hplain, -⟩ | ⟨name, hname, hread, hc⟩ | hc <;>
    rcases escape_cases hmark d with ⟨hd, hplain', -⟩ | ⟨name', hname', hread', hd⟩ | hd <;>
    rw [hc, hd] at h
  · exact List.cons.inj h
  · exact absurd (List.cons.inj h).1 hplain
  · exact absurd (List.cons.inj h).1 hplain
  · exact absurd (List.cons.inj h).1.symm hplain'
  · obtain ⟨hsame, hrest⟩ := List.cons.inj (List.cons.inj h).2
    exact ⟨by rw [← hread, ← hread', hsame], hrest⟩
  · exact absurd (List.cons.inj (List.cons.inj h).2).1 (hletter name hname)
  · exact absurd (List.cons.inj h).1.symm hplain'
  · exact absurd (List.cons.inj (List.cons.inj h).2).1.symm (hletter name' hname')
  · exact escapeCodePoint_append_inj h

theorem escape_append_ne_mark : escape '"' c ++ rest ≠ '"' :: more := by
  intro h
  rcases escape_cases (.inl rfl) c with ⟨hc, -, hfree, -⟩ | ⟨name, -, -, hc⟩ | hc <;> rw [hc] at h
  · exact hfree (List.cons.inj h).1
  · exact absurd (List.cons.inj h).1 (by decide)
  · exact absurd (List.cons.inj h).1 (by decide)

/-- Escapes up to the mark determine the text, and where it ends. -/
theorem flatMap_escape_inj
    (h : cs.flatMap (escape '"') ++ '"' :: rest = ds.flatMap (escape '"') ++ '"' :: more) :
    cs = ds ∧ rest = more := by
  induction cs generalizing ds with
  | nil =>
    rcases ds with _ | ⟨d, ds⟩
    · exact ⟨rfl, (List.cons.inj h).2⟩
    · rw [List.flatMap_cons, List.append_assoc] at h
      exact absurd h.symm escape_append_ne_mark
  | cons c cs ih =>
    rcases ds with _ | ⟨d, ds⟩
    · rw [List.flatMap_cons, List.append_assoc] at h
      exact absurd h escape_append_ne_mark
    · rw [List.flatMap_cons, List.flatMap_cons, List.append_assoc, List.append_assoc] at h
      obtain ⟨rfl, hlater⟩ := escape_append_inj (.inl rfl) h
      obtain ⟨rfl, hrest⟩ := ih hlater
      exact ⟨rfl, hrest⟩

theorem quote_inj {text other : String} (h : quote text = quote other) : text = other := by
  have hlist := String.ofList_injective h
  exact String.toList_inj.mp (flatMap_escape_inj (List.cons.inj hlist).2).1

end FieldSieve.Text
