import TreeLens.Input
import TreeLens.Proofs.Tiling

/-!
# Reading under a size limit

A source is read exactly if it is UTF-8 and not longer than the limit. A longer text is too large,
with one exception: standard input is read one byte beyond the limit and no further, and what was
read has to be UTF-8 by itself. Where that byte is not the last one of a character, a text that is
too large is taken for bytes that are no text.

A file is refused by the size that it is said to have before anyone tries to read it. The limit is
exact for files of which the bytes are as many as that.

## Main definitions

* `Source.bytes` — all the bytes that a source stands for.
* `Source.Sized` — files are as long as they are said to be.
* `Source.taken` — the bytes that are read of them.
* `Source.StopsInside` — reading a text stops inside a character.
* `Source.Reads` — what holds of reading a source under a limit.
-/

namespace TreeLens

/-! ### Bytes of a text -/

/-- The bytes of a text. -/
def Text.bytes (t : Text) : ByteArray := (String.ofList t).toByteArray

namespace Text

theorem bytes_eq (t : Text) : t.bytes = t.utf8Encode := String.toByteArray_ofList

theorem size_bytes (t : Text) : t.bytes.size = size t := by
  rw [bytes_eq]
  induction t with
  | nil => simp
  | cons c t ih =>
    rw [List.utf8Encode_cons, ByteArray.size_append, ih, List.utf8Encode_singleton,
      List.size_toByteArray, String.length_utf8EncodeChar, size_cons]

theorem bytes_append (s t : Text) : (s ++ t).bytes = s.bytes ++ t.bytes := by
  simp only [bytes_eq, List.utf8Encode_append]

/-- Bytes that begin with those of a text belong to texts that begin with it. -/
theorem isPrefix_of_bytes_append {s t : Text} {more : ByteArray} (h : s.bytes ++ more = t.bytes) :
    s <+: t := by
  rw [bytes_eq, bytes_eq] at h
  exact List.isPrefix_of_utf8Encode_append_eq_utf8Encode more h

end Text

/-- Bytes are read as a text exactly if they are those of the text. -/
theorem textOfBytes?_eq_some_iff {bytes : ByteArray} {text : Text} :
    textOfBytes? bytes = some text ↔ bytes = text.bytes := by
  rw [textOfBytes?, String.fromUTF8?]
  constructor
  · intro h
    split at h
    · cases h
      rw [Text.bytes, String.ofList_toList]
      rfl
    · cases h
  · rintro rfl
    have hvalid : text.bytes.IsValidUTF8 := (String.ofList text).isValidUTF8
    rw [dif_pos hvalid, Option.map_some]
    exact congrArg some String.toList_ofList

theorem textOfBytes?_bytes (text : Text) : textOfBytes? text.bytes = some text :=
  textOfBytes?_eq_some_iff.2 rfl

/-- The first bytes of a text are a text exactly if they end between two characters. -/
theorem isSome_textOfBytes?_extract {text : Text} {n : Nat} (hn : n ≤ Text.size text) :
    (textOfBytes? (text.bytes.extract 0 n)).isSome ↔ Text.isBoundary n text := by
  constructor
  · intro h
    obtain ⟨front, hfront⟩ := Option.isSome_iff_exists.1 h
    rw [textOfBytes?_eq_some_iff] at hfront
    have hsize : Text.size front = n := by
      rw [← Text.size_bytes, ← hfront, ByteArray.size_extract, Text.size_bytes]
      omega
    have hsplit : front.bytes ++ text.bytes.extract n text.bytes.size = text.bytes := by
      rw [← hfront, ByteArray.extract_append_extract, Text.size_bytes, Nat.zero_min,
        Nat.max_eq_right hn, ← Text.size_bytes, ByteArray.extract_zero_size]
    obtain ⟨back, rfl⟩ := Text.isPrefix_of_bytes_append hsplit
    rw [← hsize]
    exact Text.isBoundary_size_append front back
  · intro h
    obtain ⟨⟨front, back⟩, hcut⟩ := Option.isSome_iff_exists.1 h
    have hpart : text.bytes.extract 0 n = front.bytes := by
      rw [← Text.append_of_cut? hcut, Text.bytes_append]
      refine ByteArray.extract_append_eq_left ?_
      rw [Text.size_bytes, Text.size_of_cut? hcut]
    rw [hpart, textOfBytes?_bytes]
    rfl

theorem extract_of_size_le {bytes : ByteArray} {n : Nat} (h : bytes.size ≤ n) :
    bytes.extract 0 n = bytes := by
  rw [← Nat.max_eq_left h, ByteArray.extract_zero_max_size]

theorem size_eq_of_textOfBytes? {bytes : ByteArray} {text : Text}
    (h : textOfBytes? bytes = some text) : bytes.size = Text.size text := by
  rw [textOfBytes?_eq_some_iff.1 h, Text.size_bytes]

namespace Source

/-! ### What is read of a source -/

/-- All the bytes that a source stands for. A file has to have a size, too. -/
def bytes (around : Surroundings) : Source → Except ReadFailure ByteArray
  | inline text => .ok text.bytes
  | file path => around.fileSize path >>= fun _ => around.file path
  | standardInput => .ok around.standardInput

/-- Whether a source, if it is a file, is as long as it is said to be. -/
def Sized (around : Surroundings) (source : Source) : Prop :=
  ∀ path bytes, source = file path → around.file path = .ok bytes →
    around.fileSize path = .ok bytes.size

/-- The bytes that are read under a limit, of all that a source stands for. -/
def taken (limit : Nat) (bytes : ByteArray) : Source → ByteArray
  | standardInput => bytes.extract 0 (limit + 1)
  | _ => bytes

/-- Reading a text stops inside a character: it comes from standard input, is too large, and the
first byte beyond the limit does not end a character. -/
def StopsInside (limit : Nat) (text : Text) (source : Source) : Prop :=
  source = standardInput ∧ limit < Text.size text ∧ ¬Text.isBoundary (limit + 1) text

/-- Take bytes as the text of a source, and refuse a text that is longer than the limit. -/
def accept (source : Source) (limit : Nat) (bytes : ByteArray) : Except InputError Text := do
  let text ← source.textOf bytes
  checkSize (Text.size text) limit
  return text

variable {around : Surroundings} {source : Source} {limit : Nat} {bytes : ByteArray} {text : Text}

theorem taken_of_size_le (h : bytes.size ≤ limit) : source.taken limit bytes = bytes := by
  cases source with
  | standardInput => exact extract_of_size_le (by omega)
  | inline t => rfl
  | file path => rfl

theorem accept_of_none (h : textOfBytes? bytes = none) :
    source.accept limit bytes = .error (.unreadable source.name .notText) := by
  rw [accept, textOf, h]
  rfl

theorem accept_of_some (h : textOfBytes? bytes = some text) : source.accept limit bytes =
    if limit < bytes.size then .error (.tooLarge bytes.size limit) else .ok text := by
  rw [size_eq_of_textOfBytes? h]
  simp only [accept, textOf, h, bind, Except.bind, pure, Except.pure, checkSize]
  by_cases hsize : limit < Text.size text <;> simp [hsize]

theorem lt_size_taken (h : limit < bytes.size) : limit < (source.taken limit bytes).size := by
  cases source with
  | inline t => exact h
  | file path => exact h
  | standardInput =>
    rw [taken, ByteArray.size_extract]
    omega

/-- What is read of a text that is too large is a text, unless reading stops inside a character. -/
theorem isSome_textOfBytes?_taken (h : limit < Text.size text) :
    (textOfBytes? (source.taken limit text.bytes)).isSome ↔ ¬source.StopsInside limit text := by
  cases source with
  | inline t => simp [taken, StopsInside, textOfBytes?_bytes]
  | file path => simp [taken, StopsInside, textOfBytes?_bytes]
  | standardInput => simp [taken, StopsInside, isSome_textOfBytes?_extract h, h]

/-! ### Reading -/

/-- A file that is said to be too long is refused, whether or not it can be read. -/
theorem read_of_fileSize_gt {path : Text} {size : Nat} (hsize : around.fileSize path = .ok size)
    (h : limit < size) : (file path).read around limit = .error (.tooLarge size limit) := by
  simp [Source.read, had, hsize, bind, Except.bind, checkSize, h]

/-- A source without bytes is unreadable, unless it is a file that is said to be too long. -/
theorem read_of_error (limit : Nat) {cause : ReadFailure} (h : source.bytes around = .error cause) :
    source.read around limit = .error (.unreadable source.name cause) ∨
      ∃ path size, source = file path ∧ around.fileSize path = .ok size ∧ limit < size := by
  cases source with
  | inline text => cases h
  | standardInput => cases h
  | file path =>
    rw [Source.bytes] at h
    cases hsize : around.fileSize path with
    | error e =>
      rw [hsize] at h
      cases h
      exact .inl (by rw [Source.read, hsize]; rfl)
    | ok size =>
      rw [hsize] at h
      rcases Nat.lt_or_ge limit size with hlarge | hsmall
      · exact .inr ⟨path, size, rfl, hsize, hlarge⟩
      · change around.file path = .error cause at h
        exact .inl (by
          simp [Source.read, had, hsize, h, bind, Except.bind, checkSize, Nat.not_lt.2 hsmall])

theorem read_inline (t : Text) :
    (inline t).read around limit = (inline t).accept limit t.bytes := by
  rw [accept, textOf, textOfBytes?_bytes]
  rfl

theorem file_of_bytes {path : Text} (h : (file path).bytes around = .ok bytes) :
    around.file path = .ok bytes := by
  rw [Source.bytes] at h
  cases hsize : around.fileSize path with
  | error e =>
    rw [hsize] at h
    cases h
  | ok size =>
    rw [hsize] at h
    exact h

/-- The size of a file is looked at before its bytes are. -/
theorem read_file {path : Text} (hbytes : (file path).bytes around = .ok bytes)
    (hsized : (file path).Sized around) : (file path).read around limit =
      if limit < bytes.size then .error (.tooLarge bytes.size limit)
      else (file path).accept limit bytes := by
  have h := file_of_bytes hbytes
  have hsize := hsized path bytes rfl h
  by_cases hlarge : limit < bytes.size
  · rw [read_of_fileSize_gt hsize hlarge, if_pos hlarge]
  · rw [if_neg hlarge]
    simp [Source.read, accept, had, hsize, h, bind, Except.bind, checkSize, hlarge]

/-- Standard input is read one byte beyond the limit, if so many bytes can be asked for or it ends
before. -/
theorem read_standardInput
    (h : limit < largestRequest ∨ around.standardInput.size ≤ largestRequest) :
    standardInput.read around limit =
      standardInput.accept limit (standardInput.taken limit around.standardInput) := by
  have hpart : around.standardInput.extract 0 (min (limit + 1) largestRequest) =
      around.standardInput.extract 0 (limit + 1) := by
    rcases Nat.lt_or_ge limit largestRequest with hlimit | hlimit
    · rw [Nat.min_eq_left hlimit]
    · rw [extract_of_size_le (by omega), extract_of_size_le (by omega)]
  rw [taken, ← hpart]
  rfl

section

variable (hsized : source.Sized around)
  (hrequest : limit < largestRequest ∨ around.standardInput.size ≤ largestRequest)

include hsized hrequest

theorem read_of_size_le (hbytes : source.bytes around = .ok bytes) (hsize : bytes.size ≤ limit) :
    source.read around limit = source.accept limit bytes := by
  cases source with
  | inline t =>
    cases hbytes
    exact read_inline t
  | file path => rw [read_file hbytes hsized, if_neg (by omega)]
  | standardInput =>
    cases hbytes
    rw [read_standardInput hrequest, taken_of_size_le hsize]

theorem read_of_text (hbytes : source.bytes around = .ok text.bytes) :
    source.read around limit = source.accept limit (source.taken limit text.bytes) := by
  cases source with
  | inline t =>
    rw [read_inline, Except.ok.inj hbytes]
    rfl
  | file path =>
    have htaken : (file path).taken limit text.bytes = text.bytes := rfl
    rw [read_file hbytes hsized, htaken, accept_of_some (textOfBytes?_bytes text)]
    by_cases hsize : limit < text.bytes.size <;> simp [hsize]
  | standardInput => rw [read_standardInput hrequest, Except.ok.inj hbytes]

/-- Bytes beyond the limit are never read as a text. -/
theorem read_of_size_lt (hbytes : source.bytes around = .ok bytes) (hsize : limit < bytes.size) :
    (∃ length, source.read around limit = .error (.tooLarge length limit)) ∨
      source.read around limit = .error (.unreadable source.name .notText) := by
  cases source with
  | inline t =>
    cases hbytes
    rw [read_inline, accept_of_some (textOfBytes?_bytes t), if_pos hsize]
    exact .inl ⟨_, rfl⟩
  | file path =>
    rw [read_file hbytes hsized, if_pos hsize]
    exact .inl ⟨_, rfl⟩
  | standardInput =>
    cases hbytes
    rw [read_standardInput hrequest]
    -- One byte beyond the limit was taken, whether or not that is a text.
    cases htext : textOfBytes? (standardInput.taken limit around.standardInput) with
    | none => exact .inr (accept_of_none htext)
    | some text =>
      rw [accept_of_some htext, if_pos (lt_size_taken hsize)]
      exact .inl ⟨_, rfl⟩

end

/-! ### The limit is exact -/

/-- What holds of reading a source under a limit. -/
structure Reads (around : Surroundings) (limit : Nat) (source : Source) : Prop where
  /-- A text is read exactly if the source stands for it and it is not longer than the limit. -/
  ok_iff : ∀ text, source.read around limit = .ok text ↔
    source.bytes around = .ok text.bytes ∧ Text.size text ≤ limit
  /-- A text that is longer than the limit is too large. -/
  tooLarge : ∀ text, source.bytes around = .ok text.bytes → limit < Text.size text →
    ¬source.StopsInside limit text → source.read around limit =
      .error (.tooLarge (source.taken limit text.bytes).size limit)
  /-- A text in which reading stops inside a character is taken for no text. -/
  stopped : ∀ text, source.bytes around = .ok text.bytes → source.StopsInside limit text →
    source.read around limit = .error (.unreadable source.name .notText)
  /-- A file that is said to be too long is refused, whether or not it can be read. -/
  refused : ∀ path size, source = file path → around.fileSize path = .ok size → limit < size →
    source.read around limit = .error (.tooLarge size limit)
  /-- Any other source without bytes is unreadable, and why is known. -/
  failed : ∀ cause, source.bytes around = .error cause →
    source.read around limit = .error (.unreadable source.name cause) ∨
      ∃ path size, source = file path ∧ around.fileSize path = .ok size ∧ limit < size
  /-- Otherwise a source is unreadable only if its bytes cannot be had or are no text. -/
  unreadable : ∀ name cause, source.read around limit = .error (.unreadable name cause) →
    name = source.name ∧ (source.bytes around = .error cause ∨
      cause = .notText ∧ ∃ bytes, source.bytes around = .ok bytes ∧
        ∀ text, bytes = text.bytes → source.StopsInside limit text)

section

variable (hsized : source.Sized around)
  (hrequest : limit < largestRequest ∨ around.standardInput.size ≤ largestRequest)

include hsized hrequest

theorem read_eq_ok_iff : source.read around limit = .ok text ↔
    source.bytes around = .ok text.bytes ∧ Text.size text ≤ limit := by
  constructor
  · intro hread
    cases hbytes : source.bytes around with
    | error cause =>
      rcases read_of_error limit hbytes with hfailed | ⟨path, size, rfl, hsize, hlarge⟩
      · rw [hfailed] at hread
        cases hread
      · rw [read_of_fileSize_gt hsize hlarge] at hread
        cases hread
    | ok bytes =>
      rcases Nat.lt_or_ge limit bytes.size with hsize | hsize
      · rcases read_of_size_lt hsized hrequest hbytes hsize with ⟨_, hlarge⟩ | hstop
        · simp [hlarge] at hread
        · simp [hstop] at hread
      · rw [read_of_size_le hsized hrequest hbytes hsize] at hread
        cases htext : textOfBytes? bytes with
        | none => simp [accept_of_none htext] at hread
        | some t =>
          rw [accept_of_some htext, if_neg (by omega)] at hread
          cases hread
          rw [← size_eq_of_textOfBytes? htext, ← textOfBytes?_eq_some_iff.1 htext]
          exact ⟨rfl, hsize⟩
  · rintro ⟨hbytes, hsize⟩
    rw [← Text.size_bytes] at hsize
    rw [read_of_size_le hsized hrequest hbytes hsize, accept_of_some (textOfBytes?_bytes text),
      if_neg (by omega)]

theorem read_of_not_stopsInside (hbytes : source.bytes around = .ok text.bytes)
    (hsize : limit < Text.size text) (hstop : ¬source.StopsInside limit text) :
    source.read around limit = .error (.tooLarge (source.taken limit text.bytes).size limit) := by
  obtain ⟨part, hpart⟩ := Option.isSome_iff_exists.1 ((isSome_textOfBytes?_taken hsize).2 hstop)
  rw [← Text.size_bytes] at hsize
  rw [read_of_text hsized hrequest hbytes, accept_of_some hpart, if_pos (lt_size_taken hsize)]

theorem read_of_stopsInside (hbytes : source.bytes around = .ok text.bytes)
    (hstop : source.StopsInside limit text) :
    source.read around limit = .error (.unreadable source.name .notText) := by
  have hnone : textOfBytes? (source.taken limit text.bytes) = none := by
    rw [← Option.not_isSome_iff_eq_none, isSome_textOfBytes?_taken hstop.2.1]
    exact not_not_intro hstop
  rw [read_of_text hsized hrequest hbytes, accept_of_none hnone]

/-- Bytes that can be had are unreadable only as no text. -/
theorem eq_of_read_eq_unreadable {name : Text} {cause : ReadFailure}
    (hbytes : source.bytes around = .ok bytes)
    (hread : source.read around limit = .error (.unreadable name cause)) :
    name = source.name ∧ cause = .notText := by
  rcases Nat.lt_or_ge limit bytes.size with hsize | hsize
  · rcases read_of_size_lt hsized hrequest hbytes hsize with ⟨_, hlarge⟩ | hstop
    · simp [hlarge] at hread
    · rw [hstop] at hread
      cases hread
      exact ⟨rfl, rfl⟩
  · rw [read_of_size_le hsized hrequest hbytes hsize] at hread
    cases htext : textOfBytes? bytes with
    | none =>
      rw [accept_of_none htext] at hread
      cases hread
      exact ⟨rfl, rfl⟩
    | some text =>
      rw [accept_of_some htext, if_neg (by omega)] at hread
      cases hread

theorem stopsInside_of_read_eq_unreadable {name : Text} {cause : ReadFailure}
    (hbytes : source.bytes around = .ok text.bytes)
    (hread : source.read around limit = .error (.unreadable name cause)) :
    source.StopsInside limit text := by
  by_contra hstop
  rcases Nat.lt_or_ge limit (Text.size text) with hsize | hsize
  · simp [read_of_not_stopsInside hsized hrequest hbytes hsize hstop] at hread
  · simp [(read_eq_ok_iff hsized hrequest).2 ⟨hbytes, hsize⟩] at hread

/-- **The limit is exact for every source**, except that a text on standard input that is too large
is taken for no text where the first byte beyond the limit does not end a character. A file has to
be as long as it is said to be, and standard input has to end, or the limit to lie, within what can
be asked for. -/
theorem reads_exactly : source.Reads around limit where
  ok_iff _ := read_eq_ok_iff hsized hrequest
  tooLarge _ hbytes hsize hstop := read_of_not_stopsInside hsized hrequest hbytes hsize hstop
  stopped _ hbytes hstop := read_of_stopsInside hsized hrequest hbytes hstop
  refused path size hfile hsize hlarge := by
    subst hfile
    exact read_of_fileSize_gt hsize hlarge
  failed _ hbytes := read_of_error limit hbytes
  unreadable name cause hread := by
    cases hbytes : source.bytes around with
    | error e =>
      rcases read_of_error limit hbytes with hfailed | ⟨path, size, rfl, hsize, hlarge⟩
      · rw [hfailed] at hread
        cases hread
        exact ⟨rfl, .inl rfl⟩
      · rw [read_of_fileSize_gt hsize hlarge] at hread
        cases hread
    | ok bytes =>
      obtain ⟨hname, hcause⟩ := eq_of_read_eq_unreadable hsized hrequest hbytes hread
      refine ⟨hname, .inr ⟨hcause, bytes, rfl, fun text htext => ?_⟩⟩
      rw [htext] at hbytes
      exact stopsInside_of_read_eq_unreadable hsized hrequest hbytes hread

end

/-- Surroundings with the same text in every file and on standard input. -/
def everywhere (text : Text) : Surroundings where
  file _ := .ok text.bytes
  standardInput := text.bytes

theorem sized_everywhere (source : Source) (text : Text) : source.Sized (everywhere text) := by
  intro path bytes _ hbytes
  cases hbytes
  rfl

/-- Three bytes are allowed, the fourth one is in the middle of a character. -/
theorem reads_exactly_three :
    (∀ source : Source, source.Sized (everywhere "aé€".toList)) ∧
      (3 < largestRequest ∨ (everywhere "aé€".toList).standardInput.size ≤ largestRequest) ∧
      standardInput.Reads (everywhere "aé€".toList) 3 ∧
      (file "a".toList).Reads (everywhere "aé€".toList) 3 :=
  ⟨fun source => sized_everywhere source _, by decide,
    reads_exactly (sized_everywhere _ _) (by decide),
    reads_exactly (sized_everywhere _ _) (by decide)⟩

/-- A text that is too large is not always called too large. -/
theorem not_forall_read_tooLarge :
    ¬∀ (source : Source) (around : Surroundings) (limit : Nat) (text : Text),
      source.Sized around → source.bytes around = .ok text.bytes → limit < Text.size text →
        ∃ length, source.read around limit = .error (.tooLarge length limit) := by
  intro h
  have hsized := sized_everywhere standardInput "aé€".toList
  obtain ⟨length, hread⟩ := h standardInput _ 3 "aé€".toList hsized rfl (by decide)
  have hstop : standardInput.read (everywhere "aé€".toList) 3 =
      .error (.unreadable "<stdin>".toList .notText) :=
    read_of_stopsInside hsized (by decide) rfl ⟨rfl, by decide, by decide⟩
  rw [hstop] at hread
  cases hread

end Source
end TreeLens
