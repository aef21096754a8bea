import UndoLog.Dev.Connection

/-!
# Well-formed requests

The bytes of a request, by the grammar of HTTP/1.1: a head that the library parses, and a body
that its `Content-Length` or its chunks delimit. What the handler reads of a body ends where
the body does, as long as the lines between the chunks fit into what it reads of a line.
-/

namespace UndoLog.Dev.Connection

open Text Text.Stream Canonical

/-! ## Well-formed requests -/

/-- The line before the data of a chunk: a number and extensions. -/
structure SizeLine (n : ℕ) where
  size : Bytes
  extension : Bytes
  numeral : IsNumeral 16 size
  value : valueFrom 16 0 size = n
  /-- Extensions begin with a semicolon, after blanks. -/
  extended : extension = [] ∨ ∃ blanks rest, extension = blanks ++ 59 :: rest ∧
    ∀ b ∈ blanks, b = 32 ∨ b = 9
  unbroken : (10 : UInt8) ∉ extension

/-- A chunk with data. -/
structure Chunk where
  data : Bytes
  nonempty : data ≠ []
  line : SizeLine data.length

/-- A trailer field. -/
structure Trailer where
  text : Bytes
  nonempty : text ≠ []
  unbroken : (10 : UInt8) ∉ text

def SizeLine.bytes {n : ℕ} (l : SizeLine n) : Bytes := l.size ++ l.extension ++ [13, 10]

def Chunk.bytes (c : Chunk) : Bytes := c.line.bytes ++ c.data ++ [13, 10]

def Trailer.bytes (t : Trailer) : Bytes := t.text ++ [13, 10]

/-- The body of a request with its framing. -/
inductive Payload where
  | absent
  | sized (length data : Bytes) (numeral : IsNumeral 10 length)
      (value : valueFrom 10 0 length = data.length)
  | chunked (chunks : List Chunk) (last : SizeLine 0) (trailers : List Trailer)

namespace Payload

def bytes : Payload → Bytes
  | .absent => []
  | .sized _ data _ _ => data
  | .chunked chunks last trailers =>
    chunks.flatMap Chunk.bytes ++ (last.bytes ++ (trailers.flatMap Trailer.bytes ++ [13, 10]))

/-- A head announces a body. -/
def Frames (head : Head) : Payload → Prop
  | .absent => head.contentLength = none ∧ head.transferEncoding = false
  | .sized length _ _ _ => head.contentLength = some length ∧ head.transferEncoding = false
  | .chunked _ _ _ => head.transferEncoding = true

/-- No chunk-size or trailer line is longer than what is read of one. -/
def Fits : Payload → Prop
  | .chunked chunks last trailers =>
    (∀ c ∈ chunks, c.line.bytes.length ≤ maxChunkLineBytes) ∧
    last.bytes.length ≤ maxChunkLineBytes ∧
    ∀ t ∈ trailers, t.bytes.length ≤ maxChunkLineBytes
  | _ => True

end Payload

/-- A well-formed request. -/
structure Message (H : Library) where
  headBytes : Bytes
  head : Head
  payload : Payload
  /-- The library parses its head and nothing more. -/
  parsed : ∀ rest, H.parseRequest (headBytes ++ rest) = some (head, rest)
  framed : payload.Frames head

variable {H : Library}

def Message.bytes (m : Message H) : Bytes := m.headBytes ++ m.payload.bytes

/-! ## Numbers in headers and chunk-size lines -/

variable {s : Bytes} {head : Head} {trailers : List Trailer} {payload : Payload} {base n lines : ℕ}
  {chunked : List Chunk} {last : SizeLine 0} {rest : Bytes}

theorem sign_numeral (h : IsNumeral base s) : sign s = (false, s) := by
  obtain ⟨hne, hdigits⟩ := h
  cases s with
  | nil => exact absurd rfl hne
  | cons b s =>
    have hb := le_of_digitIn (hdigits b (by simp))
    have h45 : b ≠ 45 := by
      rintro rfl
      simp at hb
    have h43 : b ≠ 43 := by
      rintro rfl
      simp at hb
    rw [sign, if_neg h45, if_neg h43]

theorem strip_numeral (h : IsNumeral base s) : strip s = s := by
  have hnone : ∀ b ∈ ([] : Bytes), isSpace b = true := by simp
  have hs := strip_append (fun b hb => isSpace_of_digitIn (h.2 b hb)) hnone
  rwa [List.append_nil] at hs

theorem dropBase_numeral (h : IsNumeral 16 s) : dropBase s = s := by
  match s, h with
  | [], _ => rfl
  | [b], _ => rfl
  | b :: x :: s, h =>
    have hx := h.2 x (by simp)
    have hnot : ¬ (b = 48 ∧ (x = 120 ∨ x = 88)) := by
      rintro ⟨-, rfl | rfl⟩ <;> exact absurd hx (by decide)
    rw [dropBase, if_neg hnot]

theorem parseInt_sixteen (h : IsNumeral 16 s) : parseInt 16 s = some (valueFrom 16 0 s : ℤ) := by
  simp [parseInt, strip_numeral h, sign_numeral h, dropBase_numeral h, digits_numeral h]

theorem parseInt_ten (h : IsNumeral 10 s) :
    parseInt 10 s = some (valueFrom 10 0 s : ℤ) ∨ parseInt 10 s = none := by
  by_cases hlong : maxStrDigits < s.countP fun b => (digitIn 10 b).isSome
  · exact .inr (by simp [parseInt, strip_numeral h, sign_numeral h, hlong])
  · exact .inl (by simp [parseInt, strip_numeral h, sign_numeral h, hlong, digits_numeral h])

theorem SizeLine.chunkSize_line (l : SizeLine n) {eol : Bytes}
    (heol : ∀ b ∈ eol, isSpace b = true) :
    chunkSize (l.size ++ l.extension ++ eol) = some (n : ℤ) := by
  have hdigit : ∀ b ∈ l.size, b ≠ 59 := by
    rintro b hb rfl
    exact absurd (l.numeral.2 _ hb) (by decide)
  have hspace : ∀ b : UInt8, isSpace b = true → b ≠ 59 := by
    rintro b hb rfl
    exact absurd hb (by decide)
  -- before the semicolon, or the end of the line, there is only white space after the digits
  have hfirst : ∃ spaces : Bytes, (∀ b ∈ spaces, isSpace b = true) ∧
      (l.size ++ l.extension ++ eol).takeWhile (· ≠ 59) = l.size ++ spaces := by
    rcases l.extended with hnone | ⟨blanks, rest, hextension, hblanks⟩
    · refine ⟨eol, heol, ?_⟩
      rw [hnone, List.append_nil]
      refine List.takeWhile_eq_self_iff.mpr fun b hb => decide_eq_true ?_
      rcases List.mem_append.mp hb with hb | hb
      · exact hdigit b hb
      · exact hspace b (heol b hb)
    · have hspaces : ∀ b ∈ blanks, isSpace b = true := by
        intro b hb
        rcases hblanks b hb with rfl | rfl <;> rfl
      refine ⟨blanks, hspaces, ?_⟩
      have hbefore : ∀ b ∈ l.size ++ blanks, decide (b ≠ 59) = true := by
        intro b hb
        refine decide_eq_true ?_
        rcases List.mem_append.mp hb with hb | hb
        · exact hdigit b hb
        · exact hspace b (hspaces b hb)
      have hbytes : l.size ++ l.extension ++ eol =
          (l.size ++ blanks) ++ 59 :: (rest ++ eol) := by
        simp [hextension]
      rw [hbytes, List.takeWhile_append_of_pos hbefore]
      simp
  obtain ⟨spaces, hspaces, htake⟩ := hfirst
  have hstrip : strip (l.size ++ spaces) = l.size :=
    strip_append (fun b hb => isSpace_of_digitIn (l.numeral.2 b hb)) hspaces
  rw [chunkSize, htake, hstrip, parseInt_sixteen l.numeral, l.value]

theorem SizeLine.chunkSize_bytes (l : SizeLine n) : chunkSize l.bytes = some (n : ℤ) :=
  l.chunkSize_line (List.all_eq_true.mp rfl)

/-! ## Lines and chunks -/

/-- A line that ends as the grammar has it and fits is read as a whole. -/
theorem readline_crlf {text : Bytes} (htext : (10 : UInt8) ∉ text)
    (hfits : (text ++ [13, 10]).length ≤ maxChunkLineBytes) (rest : Bytes) :
    readline maxChunkLineBytes (text ++ [13, 10] ++ rest) = (text ++ [13, 10], rest) := by
  have hnot : (10 : UInt8) ∉ text ++ [13] := by
    simpa using htext
  have hlength : (text ++ [13]).length < maxChunkLineBytes := by
    simp only [List.length_append, List.length_cons, List.length_nil] at hfits ⊢
    omega
  simpa using readline_line hnot hlength rest

theorem SizeLine.readline_bytes (l : SizeLine n) (hfits : l.bytes.length ≤ maxChunkLineBytes)
    (rest : Bytes) : readline maxChunkLineBytes (l.bytes ++ rest) = (l.bytes, rest) := by
  refine readline_crlf ?_ hfits rest
  intro hmem
  rcases List.mem_append.mp hmem with hmem | hmem
  · exact absurd (l.numeral.2 _ hmem) (by decide)
  · exact l.unbroken hmem

theorem Trailer.readline_bytes (t : Trailer) (hfits : t.bytes.length ≤ maxChunkLineBytes)
    (rest : Bytes) : readline maxChunkLineBytes (t.bytes ++ rest) = (t.bytes, rest) :=
  readline_crlf t.unbroken hfits rest

theorem SizeLine.bytes_ne_nil (l : SizeLine n) : l.bytes ≠ [] := by
  simp [SizeLine.bytes]

theorem Trailer.bytes_ne_nil (t : Trailer) : t.bytes ≠ [] := by
  simp [Trailer.bytes]

theorem Chunk.bytes_ne_nil (c : Chunk) : c.bytes ≠ [] := by
  simp [Chunk.bytes]

theorem length_le_flatMap {α : Type} {bytes : α → Bytes} (h : ∀ x, bytes x ≠ []) (l : List α) :
    l.length ≤ (l.flatMap bytes).length := by
  induction l with
  | nil => exact Nat.le_refl 0
  | cons x l ih =>
    have hpos := List.length_pos_iff.mpr (h x)
    rw [List.flatMap_cons, List.length_append, List.length_cons]
    omega

theorem consume_append (data rest : Bytes) :
    consume data.length (data ++ rest) = (.ok (), rest) := by
  have hdrain : drain pieceBytes data.length data.length (data ++ rest) = (0, rest) := by
    have hpiece : 0 < pieceBytes := by decide
    rw [drain_eq hpiece (Nat.le_refl _)]
    simp
  rw [consume, Int.toNat_natCast, hdrain]

theorem readTrailers_bytes (hfits : ∀ t ∈ trailers, t.bytes.length ≤ maxChunkLineBytes)
    (hlines : trailers.length < lines) (rest : Bytes) :
    readTrailers lines (trailers.flatMap Trailer.bytes ++ [13, 10] ++ rest) = rest := by
  induction trailers generalizing lines with
  | nil =>
    cases lines with
    | zero => cases hlines
    | succ lines =>
      have hempty : (10 : UInt8) ∉ ([] : Bytes) := by simp
      have hline : readline maxChunkLineBytes ([13, 10] ++ rest) = ([13, 10], rest) :=
        readline_crlf hempty (by decide) rest
      rw [readTrailers, List.flatMap_nil, List.nil_append, hline]
      simp
  | cons t trailers ih =>
    cases lines with
    | zero => cases hlines
    | succ lines =>
      have hline := t.readline_bytes (hfits t (by simp))
        (trailers.flatMap Trailer.bytes ++ [13, 10] ++ rest)
      have hlong : 2 < t.bytes.length := by
        have htext := List.length_pos_iff.mpr t.nonempty
        simp only [Trailer.bytes, List.length_append, List.length_cons, List.length_nil]
        omega
      have hnot : ¬ (t.bytes = [] ∨ t.bytes = [13, 10] ∨ t.bytes = [10]) := by
        rintro (heq | heq | heq) <;>
        · rw [heq] at hlong
          simp at hlong
      have hless : trailers.length < lines := by
        rw [List.length_cons] at hlines
        omega
      have hrest := ih (fun t' ht' => hfits t' (List.mem_cons_of_mem t ht')) hless
      rw [readTrailers, List.flatMap_cons, List.append_assoc, List.append_assoc,
        ← List.append_assoc _ [13, 10], hline]
      dsimp only
      rw [if_neg hnot, hrest]

/-- The chunks with the data of one more. -/
def Chunks.add (chunks : Chunks) (data : Bytes) : Chunks :=
  if chunks.overflow ∨ chunks.total + data.length > maxBodyBytes then
    { chunks with overflow := true }
  else { chunks with parts := chunks.parts ++ data, total := chunks.total + data.length }

theorem readData_append (chunks : Chunks) (data rest : Bytes) :
    readData data.length chunks (data ++ rest) = (.ok (chunks.add data), rest) := by
  unfold readData Chunks.add
  split
  · rw [consume_append]
  · rw [read_append]
    dsimp only
    rw [if_neg (by omega)]

theorem readChunks_bytes (hfits : (Payload.chunked chunked last trailers).Fits)
    (hlines : chunked.length < lines) (chunks : Chunks) (rest : Bytes) :
    readChunks lines chunks ((Payload.chunked chunked last trailers).bytes ++ rest) =
      (.ok ((chunked.map Chunk.data).foldl Chunks.add chunks), rest) := by
  obtain ⟨hchunks, hlast, htrailers⟩ := hfits
  induction chunked generalizing lines chunks with
  | nil =>
    cases lines with
    | zero => cases hlines
    | succ lines =>
      have hline := last.readline_bytes hlast (trailers.flatMap Trailer.bytes ++ [13, 10] ++ rest)
      have hmany : trailers.length <
          (trailers.flatMap Trailer.bytes ++ [13, 10] ++ rest).length := by
        have hmany := length_le_flatMap (fun t : Trailer => t.bytes_ne_nil) trailers
        simp only [List.length_append, List.length_cons, List.length_nil]
        omega
      have hstream : (Payload.chunked [] last trailers).bytes ++ rest =
          last.bytes ++ (trailers.flatMap Trailer.bytes ++ [13, 10] ++ rest) := by
        simp [Payload.bytes]
      rw [readChunks, hstream, hline]
      dsimp only
      rw [if_neg last.bytes_ne_nil, last.chunkSize_bytes]
      simp only [Nat.cast_zero, if_true]
      rw [readTrailers_bytes htrailers hmany]
      rfl
  | cons c chunked ih =>
    cases lines with
    | zero => cases hlines
    | succ lines =>
      have hstream : (Payload.chunked (c :: chunked) last trailers).bytes ++ rest =
          c.line.bytes ++ (c.data ++ ([13, 10] ++
            ((Payload.chunked chunked last trailers).bytes ++ rest))) := by
        simp [Payload.bytes, Chunk.bytes]
      have hline := c.line.readline_bytes (hchunks c (by simp)) (c.data ++ ([13, 10] ++
        ((Payload.chunked chunked last trailers).bytes ++ rest)))
      have hsize : (c.data.length : ℤ) ≠ 0 := by
        have hpos := List.length_pos_iff.mpr c.nonempty
        omega
      have hdata := readData_append chunks c.data ([13, 10] ++
        ((Payload.chunked chunked last trailers).bytes ++ rest))
      have hcrlf : consume 2 ([13, 10] ++
          ((Payload.chunked chunked last trailers).bytes ++ rest)) =
          (.ok (), (Payload.chunked chunked last trailers).bytes ++ rest) :=
        consume_append [13, 10] _
      have hless : chunked.length < lines := by
        rw [List.length_cons] at hlines
        omega
      have hrest := ih hless (chunks.add c.data)
        (fun c' hc' => hchunks c' (List.mem_cons_of_mem c hc'))
      rw [readChunks, hstream, hline]
      dsimp only
      rw [if_neg c.line.bytes_ne_nil, c.line.chunkSize_bytes]
      dsimp only
      rw [if_neg hsize, hdata]
      dsimp only
      rw [hcrlf]
      exact hrest

theorem readChunked_bytes (hfits : (Payload.chunked chunked last trailers).Fits) (rest : Bytes) :
    readChunked ((Payload.chunked chunked last trailers).bytes ++ rest) =
      (.ok ((chunked.map Chunk.data).foldl Chunks.add ⟨[], 0, false⟩), rest) := by
  refine readChunks_bytes hfits ?_ _ rest
  have hmany := length_le_flatMap Chunk.bytes_ne_nil chunked
  simp only [Payload.bytes, List.length_append, List.length_cons, List.length_nil]
  omega

/-! ## Bodies -/

/-- The length that the handler understands of a framing without chunks. -/
theorem Payload.length_of_frames (h : payload.Frames head)
    (hsized : head.transferEncoding = false) :
    head.length = some (payload.bytes.length : ℤ) ∨ head.length = none := by
  cases payload with
  | absent =>
    left
    rw [Head.length, h.1]
    decide
  | sized length data numeral value =>
    have hparse := parseInt_ten numeral
    rw [value] at hparse
    rw [Head.length, h.1]
    exact hparse
  | chunked chunks last trailers =>
    rw [Payload.Frames, hsized] at h
    cases h

/-- The handlers read bodies that are chunked or not too long. -/
def Head.readable (head : Head) : Bool :=
  head.transferEncoding || head.length.any fun length => length ≤ (maxBodyBytes : ℤ)

theorem readBody_bytes {H : Library} (hframes : payload.Frames head)
    (hreadable : head.readable = true) (hfits : payload.Fits) {s : Conn}
    (hrfile : s.rfile = payload.bytes ++ rest) :
    ∃ body, readBody H head s = (body, { s with rfile := rest, bodyRead := true }) := by
  cases hcoding : head.transferEncoding with
  | true =>
    cases payload with
    | absent | sized =>
      rw [Payload.Frames, hcoding] at hframes
      cases hframes.2
    | chunked chunks last trailers =>
      have hread := readChunked_bytes hfits rest
      rw [readBody, if_pos hcoding, hrfile, hread]
      exact ⟨_, rfl⟩
  | false =>
    have hnot : ¬ head.transferEncoding = true := by simp [hcoding]
    rcases Payload.length_of_frames hframes hcoding with hlength | hnone
    · rw [Head.readable, hcoding, hlength] at hreadable
      have hsmall : (payload.bytes.length : ℤ) ≤ maxBodyBytes := by simpa using hreadable
      rw [readBody, if_neg hnot, hlength]
      dsimp only
      by_cases hzero : (payload.bytes.length : ℤ) = 0
      · have hempty : payload.bytes = [] := List.length_eq_zero_iff.mp (by omega)
        rw [if_pos hzero]
        rw [hempty, List.nil_append] at hrfile
        exact ⟨_, by rw [← hrfile]⟩
      · rw [if_neg hzero, if_pos hsmall, hrfile, read_append]
        exact ⟨_, rfl⟩
    · rw [Head.readable, hcoding, hnone] at hreadable
      cases hreadable

theorem readBody_unreadable (H : Library) (h : head.readable = false) (s : Conn) :
    ∃ e, readBody H head s = (.error e, s) := by
  obtain ⟨hcoding, hlength⟩ := Bool.or_eq_false_iff.mp h
  have hnot : ¬ head.transferEncoding = true := by simp [hcoding]
  rw [readBody, if_neg hnot]
  cases hcase : head.length with
  | none => exact ⟨_, rfl⟩
  | some length =>
    rw [hcase] at hlength
    have hlarge : ¬ length ≤ (maxBodyBytes : ℤ) := by simpa using hlength
    have hzero : length ≠ 0 := by
      rintro rfl
      exact hlarge (by decide)
    dsimp only
    rw [if_neg hzero, if_neg hlarge]
    exact ⟨_, rfl⟩

/-- A response to a request whose body is taken for read changes nothing. -/
theorem sendJson_read {s : Conn} (h : s.bodyRead = true) : sendJson head s = s := by
  have hdiscard : discardUnreadBody head s = s := by rw [discardUnreadBody, if_pos h]
  have hunread : bodyIsUnread head s = false := by rw [bodyIsUnread, if_pos h]
  simp [sendJson, hdiscard, hunread]

theorem sendJson_unread (hframes : payload.Frames head) {s : Conn} (hread : s.bodyRead = false)
    (hrfile : s.rfile = payload.bytes ++ rest) : (sendJson head s).closeConnection = true ∨
      (sendJson head s).rfile = rest ∧ (sendJson head s).bodyRead = true := by
  cases hcoding : head.transferEncoding with
  | true =>
    left
    simp [sendJson, discardUnreadBody, bodyIsUnread, hread, hcoding]
  | false =>
    rcases Payload.length_of_frames hframes hcoding with hlength | hnone
    · right
      by_cases hzero : (payload.bytes.length : ℤ) = 0
      · have hempty : payload.bytes = [] := List.length_eq_zero_iff.mp (by omega)
        rw [hempty, List.nil_append] at hrfile
        simp [sendJson, discardUnreadBody, bodyIsUnread, hread, hcoding, hlength, hempty, hrfile]
      · have hpiece : 0 < pieceBytes := by decide
        have hdrain := drain_eq hpiece (Nat.le_refl payload.bytes.length) (payload.bytes ++ rest)
        have hdiscard : discardUnreadBody head s = { s with rfile := rest, bodyRead := true } := by
          simp only [discardUnreadBody, hread, hcoding, hlength, Bool.false_eq_true, if_false,
            if_neg hzero, Int.toNat_natCast, hrfile, hdrain]
          simp
        simp [sendJson, hdiscard, bodyIsUnread]
    · left
      simp [sendJson, discardUnreadBody, bodyIsUnread, hread, hcoding, hnone]

end UndoLog.Dev.Connection
