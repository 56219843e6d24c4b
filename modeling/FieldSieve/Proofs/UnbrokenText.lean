import FieldSieve.Proofs.LineResults
import FieldSieve.Proofs.OpenFrames
import FieldSieve.Proofs.TextForms

/-!
# Text that keeps to its line

A report puts text of its own, numbers and digits on a line, and beside them what somebody else
wrote: a character that is no digit, the text of a field, the halves of a fee.  Every character at
which a reader may end a line is hidden (`Text.isHidden_of_mem_lineBreaks`), so what is quoted keeps
to its line, and so does what is written in digits.  The halves of a fee are neither, and a fee
keeps to its line just as far as they do (`Fee.unbroken_describe_iff`).
-/
namespace FieldSieve

namespace Text

/-- The characters at which a reader may end a line. -/
def lineBreaks : List Char := ['\n', '\x0b', '\x0c', '\r', '\x85', '\u2028', '\u2029']

/-- No reader ends a line in these characters. -/
def Unbroken (cs : List Char) : Prop := ∀ c ∈ cs, c ∉ lineBreaks

instance (cs : List Char) : Decidable (Unbroken cs) :=
  List.decidableBAll (· ∉ lineBreaks) cs

variable {c mark : Char} {cs ds : List Char}

@[simp] theorem unbroken_append : Unbroken (cs ++ ds) ↔ Unbroken cs ∧ Unbroken ds :=
  List.forall_mem_append

theorem Unbroken.cons (hc : c ∉ lineBreaks) (h : Unbroken cs) : Unbroken (c :: cs) :=
  List.forall_mem_cons.mpr ⟨hc, h⟩

theorem Unbroken.append {s t : String} (hs : Unbroken s.toList) (ht : Unbroken t.toList) :
    Unbroken (s ++ t).toList := by
  rw [String.toList_append]
  exact unbroken_append.mpr ⟨hs, ht⟩

/-! ### Digits -/

theorem digitChar_notMem_lineBreaks (n : Nat) : n.digitChar ∉ lineBreaks := by
  by_cases hn : n < 16
  · have hall : ∀ n < 16, n.digitChar ∉ lineBreaks := by decide
    exact hall n hn
  · rw [Nat.digitChar_eq_star.mpr (Nat.le_of_not_lt hn)]
    decide

theorem unbroken_toDigits {base : Nat} (hbase : 1 < base) (n : Nat) :
    Unbroken (Nat.toDigits base n) := by
  intro c hc
  obtain ⟨d, -, rfl⟩ := exists_digitChar_of_mem_toDigits hbase hc
  exact digitChar_notMem_lineBreaks d

theorem unbroken_repr (n : Nat) : Unbroken n.repr.toList := by
  rw [Nat.toList_repr]
  exact unbroken_toDigits (by decide) n

theorem Hex.unbroken_encode (bytes : Bytes) : Unbroken (Hex.encode bytes).toList := by
  rw [Hex.encode, String.toList_ofList]
  intro c hc
  obtain ⟨b, -, hc⟩ := List.mem_flatMap.mp hc
  rcases List.mem_cons.mp hc with rfl | hc
  · exact digitChar_notMem_lineBreaks _
  · rw [List.mem_singleton.mp hc]
    exact digitChar_notMem_lineBreaks _

/-! ### Quoted text -/

theorem isHidden_of_mem_lineBreaks (h : c ∈ lineBreaks) : isHidden c = true := by
  have hall : lineBreaks.all isHidden = true := by decide +kernel
  exact List.all_eq_true.mp hall c h

theorem unbroken_escape (hmark : mark = '"' ∨ mark = '\'') : Unbroken (escape mark c) := by
  rcases escape_cases hmark c with ⟨hc, -, -, hseen⟩ | ⟨name, hname, -, hc⟩ | hc <;> rw [hc]
  · refine .cons (fun hbreak => ?_) nofun
    rw [isHidden_of_mem_lineBreaks hbreak] at hseen
    cases hseen
  · have hnames : ∀ name ∈ ['0', 't', 'n', 'r', '\\', mark], name ∉ lineBreaks := by
      rcases hmark with rfl | rfl <;> simp [lineBreaks]
    exact .cons (by decide) (.cons (hnames name hname) nofun)
  · exact unbroken_append.mpr ⟨unbroken_append.mpr
      ⟨by decide, unbroken_toDigits (by decide) c.toNat⟩, by decide⟩

theorem unbroken_quote (text : String) : Unbroken (quote text).toList := by
  rw [quote, String.toList_ofList]
  refine .cons (by decide) (unbroken_append.mpr ⟨fun c hc => ?_, by decide⟩)
  obtain ⟨d, -, hc⟩ := List.mem_flatMap.mp hc
  exact unbroken_escape (.inl rfl) c hc

theorem unbroken_quoteChar (c : Char) : Unbroken (quoteChar c).toList := by
  rw [quoteChar, String.toList_ofList]
  exact .cons (by decide) (unbroken_append.mpr ⟨unbroken_escape (.inr rfl), by decide⟩)

end Text

/-! ### Paths, types and causes -/

open Text

theorem FieldPath.unbroken_text (path : FieldPath) : Unbroken path.text.toList := by
  intro c hc hbreak
  have hblank : lineBreaks.all isBlank = true := by decide
  exact absurd (List.all_eq_true.mp hblank c hbreak) (by simp [not_isBlank_of_mem_text hc])

theorem WireType.unbroken_name (wireType : WireType) : Unbroken wireType.name.toList := by
  cases wireType <;> decide

theorem Fault.unbroken_message {fault : Fault} (h : ∀ detail, fault ≠ .brokenNesting detail) :
    Unbroken fault.message.toList := by
  cases fault with
  | endOfStream | messageOverrun => decide +kernel
  | unsupportedWireType id => exact .append (by decide +kernel) (unbroken_repr id)
  | depthLimitExceeded limit => exact .append (by decide +kernel) (unbroken_repr limit)
  | inputTooLarge length limit =>
    have hbetween : Unbroken " bytes exceeds limit of ".toList := by decide +kernel
    exact .append (.append (.append (.append (by decide +kernel) (unbroken_repr length)) hbetween)
      (unbroken_repr limit)) (by decide +kernel)
  | brokenNesting detail => exact absurd rfl (h detail)

theorem DecodeError.unbroken_message {fault : Fault} {offset : Nat} {path : FieldPath}
    (h : ∀ detail, fault ≠ .brokenNesting detail) :
    Unbroken (fault.located offset path.text).message.toList := by
  have hfront : Unbroken "decode failed at offset ".toList := by decide +kernel
  have hpath : Unbroken " (path \"".toList := by decide +kernel
  exact .append (.append (.append (.append (.append hfront (unbroken_repr offset)) hpath)
    path.unbroken_text) (by decide +kernel)) (fault.unbroken_message h)

theorem Text.Hex.Error.unbroken_message (error : Text.Hex.Error) :
    Unbroken error.message.toList := by
  cases error with
  | oddLength => decide +kernel
  | invalidCharacter c position =>
    exact .append (.append (.append (by decide +kernel) (unbroken_quoteChar c))
      (by decide +kernel)) (unbroken_repr position)

namespace Extraction

variable {σ : Type} {P : Policy σ} {fresh : σ} {bytes : Except Text.Hex.Error Bytes}

/-- The error of a scan names a place by its offset and its path, and a cause that scans have. -/
theorem exists_located_of_scan {buffer : Bytes} {error : DecodeError}
    (h : (scan P buffer fresh).result = .error error) :
    ∃ (fault : Fault) (offset : Nat) (path : FieldPath),
      error = fault.located offset path.text ∧ ∀ detail, fault ≠ .brokenNesting detail := by
  rcases scan_cases P buffer fresh {} rfl with
    ⟨last, -, -, -, -, hscan⟩ | ⟨last, fault, rest, -, -, hfield, hscan⟩
  · rw [hscan] at h
    cases h
  · rw [hscan] at h
    cases h
    exact ⟨fault, _, rest.nesting.path, rfl, Walk.fault_ne_of_field hfield⟩

/-- Whatever is wrong with a line, its cause keeps to the line. -/
theorem unbroken_message_of_resultOf {error : LineError}
    (h : resultOf P fresh bytes = .error error) : Unbroken error.message.toList := by
  cases bytes with
  | error wrong =>
    cases h
    exact .append (by decide +kernel) wrong.unbroken_message
  | ok buffer =>
    rw [resultOf] at h
    split at h
    · next wrong hscan =>
      cases h
      obtain ⟨fault, offset, path, rfl, hfault⟩ := exists_located_of_scan hscan
      exact DecodeError.unbroken_message hfault
    · cases h

end Extraction

/-! ### What is found -/

theorem CapturedField.unbroken_display (field : CapturedField) :
    Unbroken field.display.toList := by
  have hhex : Unbroken ("0x" ++ Hex.encode field.value).toList :=
    .append (by decide) (Hex.unbroken_encode _)
  unfold display
  split
  · exact unbroken_repr _
  · split
    · exact hhex
    · exact unbroken_quote _
  · exact hhex

theorem CapturedField.unbroken_describe (field : CapturedField) :
    Unbroken field.describe.toList :=
  .append (.append (.append (.append field.path.unbroken_text (by decide))
    field.wireType.unbroken_name) (by decide)) field.unbroken_display

/-- The halves of a fee stand on the line as they are. -/
theorem Fee.unbroken_describe_iff {fee : Fee} : Unbroken fee.describe.toList ↔
    Unbroken fee.amount.toList ∧ Unbroken fee.denom.toList := by
  have hgas : ∃ gas : String, Unbroken gas.toList ∧
      fee.describe = fee.amount ++ " " ++ fee.denom ++ gas := by
    obtain ⟨denom, amount, gasLimit⟩ := fee
    cases gasLimit with
    | none => exact ⟨"", nofun, rfl⟩
    | some gas =>
      exact ⟨" (gas limit " ++ gas.toNat.repr ++ ")",
        .append (.append (by decide +kernel) (unbroken_repr _)) (by decide), rfl⟩
  obtain ⟨gas, hgas, hdescribe⟩ := hgas
  have hspace : Unbroken " ".toList := by decide
  simp only [hdescribe, String.toList_append, unbroken_append, hspace, hgas, and_true]

end FieldSieve
