import ApiGateway.Compress

/-!
# What compression does to a body

A handler sets its header, may write a status, and writes its body in any number of pieces. What
`Compress` makes of that is observed by an outer writer that records the calls it gets and the
header as it was when it was first sent. The writer buffers until `minSize` bytes are there,
decides once, and passes on the rest as it comes; what ends up outside is either the body or one
gzip stream of it, under a header that was sent once, before.

The decision reads the first `Content-Encoding` line only. A handler that leaves an empty line
before another has set an encoding, and its body is compressed and relabelled all the same.
-/

namespace ApiGateway.CompressBody

open Strings Http Compress
set_option autoImplicit false

inductive Call where
  | writeHeader (code : Int)
  | write (b : List UInt8)
  deriving DecidableEq

/-- The header map, the header as it was first sent, and the calls in their order. -/
structure Recorder where
  header : Header
  sent : Option Header
  calls : List Call
  deriving DecidableEq

def Recorder.call (w : Recorder) (c : Call) : Recorder :=
  {w with sent := some (w.sent.getD w.header), calls := w.calls ++ [c]}

def recorder : ResponseWriter Recorder where
  header w := w.header
  mapHeader f w := {w with header := f w.header}
  writeHeader code w := w.call (.writeHeader code)
  write b w := w.call (.write b)

def fresh (h : Header) : Recorder := ⟨h, none, []⟩

/-- What goes out under: a response that nothing was written to is sent when the handler returns. -/
def Recorder.sentHeader (w : Recorder) : Header := w.sent.getD w.header

def Call.bytes : Call → List UInt8
  | .writeHeader _ => []
  | .write b => b

def Recorder.bytes (w : Recorder) : List UInt8 := w.calls.flatMap Call.bytes

def Recorder.writes (w : Recorder) (ps : List (List UInt8)) : Recorder :=
  ps.foldl (fun w b => recorder.write b w) w

/-- The header of the map goes out with the status. -/
def begun (code : Int) (h : Header) : Recorder := recorder.writeHeader code (fresh h)

/-- What an encoder puts out for each piece, and at `Close`. -/
def emitted (gz : Gzip) (s : gz.State) : List (List UInt8) → List (List UInt8)
  | [] => [gz.close s]
  | p :: ps => (gz.write s p).2 :: emitted gz (gz.write s p).1 ps

/-- The bytes from `Reset` to `Close`. -/
def stream (gz : Gzip) (ps : List (List UInt8)) : List UInt8 := (emitted gz gz.reset ps).flatten

/-- `decode` undoes every stream, however it was written. -/
def Decodes (gz : Gzip) (decode : List UInt8 → Option (List UInt8)) : Prop :=
  ∀ ps, decode (stream gz ps) = some ps.flatten

/-- The operations of a handler: its header, a status if it writes one, its body in pieces. -/
def handlerOps (fields : List HeaderOp) (code : Option Int) (chunks : List (List UInt8)) : List Op :=
  fields.map .header ++ (code.toList.map .writeHeader ++ chunks.map .write)

/-- The header as the handler leaves it, in a map that has the middleware's Vary line. -/
def headerLeft (h : Header) (fields : List HeaderOp) : Header :=
  fields.foldl HeaderOp.apply (h.add varyName "Accept-Encoding")

/-- The header is sent once, before the body: after the first call there are only writes. -/
def HeaderOnce (w : Recorder) : Prop := ∀ c ∈ w.calls.tail, ∃ b, c = .write b

structure Passed (h : Header) (body : List UInt8) (w : Recorder) : Prop where
  bytes : w.bytes = body
  header : w.sentHeader = h

structure Zipped (gz : Gzip) (minSize : Int) (r : Request) (h : Header) (body : List UInt8) (w : Recorder) :
    Prop where
  stream : ∃ ps, ps.flatten = body ∧ w.bytes = stream gz ps
  decodes : ∀ decode, Decodes gz decode → decode w.bytes = some body
  header : w.sentHeader = (h.set contentEncoding "gzip").del contentLength
  accepted : clientAcceptsGzip (r.header.get "Accept-Encoding") = true
  size : minSize ≤ body.length
  unset : h.values "Content-Encoding" = []

/-- What `Compress` owes a handler. -/
def Preserved (codec : Codec) (minSize : Int) (r : Request) (h : Header) (fields : List HeaderOp)
    (code : Option Int) (chunks : List (List UInt8)) : Prop :=
  let w := compress codec recorder minSize r (handlerOps fields code chunks) (fresh h)
  HeaderOnce w ∧ (Passed (headerLeft h fields) chunks.flatten w ∨
    Zipped codec.gzip minSize r (headerLeft h fields) chunks.flatten w)

/-- Where the buffer reaches `minSize`: the bytes buffered then, and the pieces after. -/
def crossing (minSize : Int) (buf : List UInt8) : List (List UInt8) → Option (List UInt8 × List (List UInt8))
  | [] => none
  | c :: cs => if ((buf ++ c).length : Int) < minSize then crossing minSize (buf ++ c) cs else some (buf ++ c, cs)

/-- What `decide` asks of the header and of the bytes buffered. -/
def zips (codec : Codec) (h : Header) (buf : List UInt8) : Bool :=
  h.get "Content-Encoding" = "" && isCompressibleType codec (h.get "Content-Type") buf

/-- The body would be compressed, but it has an encoding, in a line after an empty one. -/
def Relabels (codec : Codec) (minSize : Int) (r : Request) (h : Header) (chunks : List (List UInt8)) : Prop :=
  clientAcceptsGzip (r.header.get "Accept-Encoding") = true ∧ h.values "Content-Encoding" ≠ [] ∧
    ∃ x ∈ crossing minSize [] chunks, zips codec h x.1 = true

section Recorder
variable (w : Recorder) (ps : List (List UInt8))

theorem writes_calls : (w.writes ps).calls = w.calls ++ ps.map .write := by
  induction ps generalizing w with
  | nil => simp [Recorder.writes]
  | cons p ps ih =>
    change ((recorder.write p w).writes ps).calls = _
    rw [ih]
    simp [recorder, Recorder.call]

theorem writes_sentHeader : (w.writes ps).sentHeader = w.sentHeader := by
  induction ps generalizing w with
  | nil => rfl
  | cons p ps ih =>
    change ((recorder.write p w).writes ps).sentHeader = _
    rw [ih]
    rfl

theorem writes_bytes : (w.writes ps).bytes = w.bytes ++ ps.flatten := by
  rw [Recorder.bytes, writes_calls, List.flatMap_append, List.flatMap_map]
  exact congrArg (w.bytes ++ ·) List.flatMap_id

end Recorder

section Writer
variable (codec : Codec)

/-- Once the decision is to pass on, the pieces go out as they come. -/
theorem performAll_raw {cw : CompressWriter codec.gzip Recorder} (hhead : cw.wroteHead = true)
    (hraw : cw.compress = false) (ps : List (List UInt8)) :
    (CompressWriter.finish codec recorder
      (performAll (CompressWriter.responseWriter codec recorder) cw (ps.map .write))).outer =
      cw.outer.writes ps := by
  induction ps generalizing cw with
  | nil => simp [performAll, CompressWriter.finish, hhead, hraw, Recorder.writes]
  | cons p ps ih =>
    have hwrite : CompressWriter.write codec recorder cw p = {cw with outer := recorder.write p cw.outer} := by
      simp [CompressWriter.write, hhead, hraw]
    change (CompressWriter.finish codec recorder (performAll _
      (CompressWriter.write codec recorder cw p) (ps.map .write))).outer = _
    rw [hwrite]
    exact ih hhead hraw

/-- Once it is to compress, the encoder's output for each piece goes out, and the rest at the end. -/
theorem performAll_zipped {cw : CompressWriter codec.gzip Recorder} (hhead : cw.wroteHead = true)
    (hzip : cw.compress = true) (ps : List (List UInt8)) :
    (CompressWriter.finish codec recorder
      (performAll (CompressWriter.responseWriter codec recorder) cw (ps.map .write))).outer =
      cw.outer.writes (emitted codec.gzip cw.gz ps) := by
  induction ps generalizing cw with
  | nil => simp [performAll, CompressWriter.finish, hhead, hzip, Recorder.writes, emitted]
  | cons p ps ih =>
    have hwrite : CompressWriter.write codec recorder cw p =
        {cw with gz := (codec.gzip.write cw.gz p).1,
                 outer := recorder.write (codec.gzip.write cw.gz p).2 cw.outer} := by
      simp [CompressWriter.write, hhead, hzip]
    change (CompressWriter.finish codec recorder (performAll _
      (CompressWriter.write codec recorder cw p) (ps.map .write))).outer = _
    rw [hwrite]
    exact ih hhead hzip

/-- What a status of 0, none written, is sent as. -/
def sentStatus (code : Int) : Int := if code = 0 then 200 else code

/-- The outer writer at the end, from a writer that has buffered `buf` so far. -/
def outcome (minSize : Int) (h : Header) (code : Int) (buf : List UInt8) (ps : List (List UInt8)) : Recorder :=
  match crossing minSize buf ps with
  | none => (begun (sentStatus code) h).writes [buf ++ ps.flatten]
  | some (x, rest) =>
    if zips codec h x then
      (begun (sentStatus code) ((h.set contentEncoding "gzip").del contentLength)).writes
        (emitted codec.gzip codec.gzip.reset (x :: rest))
    else (begun (sentStatus code) h).writes (x :: rest)

theorem decide_eq (cw : CompressWriter codec.gzip Recorder) :
    CompressWriter.decide codec recorder cw =
      if zips codec cw.outer.header cw.buf then
        {cw with
          compress := true
          outer := recorder.mapHeader (fun h => (h.set contentEncoding "gzip").del contentLength) cw.outer}
      else {cw with compress := false} := by
  unfold CompressWriter.decide zips
  change (if cw.outer.header.get "Content-Encoding" ≠ "" then _ else _) = _
  by_cases henc : cw.outer.header.get "Content-Encoding" = ""
  · rw [if_neg (not_not.mpr henc)]
    cases htype : isCompressibleType codec (cw.outer.header.get "Content-Type") cw.buf with
    | true => simp [henc, htype, recorder]
    | false => simp [htype, recorder]
  · simp [henc]

/-- By induction on the pieces, for any buffer so far: a piece is buffered, or it is the one that
reaches `minSize`, and the rest is streamed. -/
theorem performAll_buffering (minSize : Int) (h : Header) (code : Int) (buf : List UInt8) (s : codec.gzip.State)
    (ps : List (List UInt8)) :
    (CompressWriter.finish codec recorder (performAll (CompressWriter.responseWriter codec recorder)
      ⟨fresh h, s, minSize, false, false, buf, code⟩ (ps.map .write))).outer =
      outcome codec minSize h code buf ps := by
  induction ps generalizing buf with
  | nil =>
    simp only [outcome, crossing, List.flatten_nil, List.append_nil]
    rfl
  | cons p ps ih =>
    change (CompressWriter.finish codec recorder (performAll _ (CompressWriter.write codec recorder
      ⟨fresh h, s, minSize, false, false, buf, code⟩ p) (ps.map .write))).outer = _
    by_cases hlt : ((buf ++ p).length : Int) < minSize
    · have hwrite : CompressWriter.write codec recorder ⟨fresh h, s, minSize, false, false, buf, code⟩ p =
          ⟨fresh h, s, minSize, false, false, buf ++ p, code⟩ := by
        simp only [CompressWriter.write, Bool.false_eq_true, if_false, if_pos hlt]
      rw [hwrite, ih]
      simp only [outcome, crossing, if_pos hlt, List.flatten_cons, List.append_assoc]
    · have hwrite : CompressWriter.write codec recorder ⟨fresh h, s, minSize, false, false, buf, code⟩ p =
          CompressWriter.flushBuffered codec recorder (CompressWriter.decide codec recorder
            ⟨fresh h, s, minSize, false, false, buf ++ p, code⟩) := by
        simp only [CompressWriter.write, Bool.false_eq_true, if_false, if_neg hlt]
      rw [hwrite, decide_eq]
      simp only [outcome, crossing, if_neg hlt]
      change (CompressWriter.finish codec recorder (performAll _ (CompressWriter.flushBuffered codec recorder
        (if zips codec h (buf ++ p) then _ else _)) (ps.map .write))).outer = _
      cases hz : zips codec h (buf ++ p) with
      | true =>
        simp only [if_true]
        exact performAll_zipped codec rfl rfl ps
      | false =>
        simp only [Bool.false_eq_true, if_false]
        exact performAll_raw codec rfl rfl ps

theorem performAll_fields_buffering (fields : List HeaderOp) (cw : CompressWriter codec.gzip Recorder) :
    performAll (CompressWriter.responseWriter codec recorder) cw (fields.map .header) =
      {cw with outer := {cw.outer with header := fields.foldl HeaderOp.apply cw.outer.header}} := by
  induction fields generalizing cw with
  | nil => rfl
  | cons op fields ih =>
    change performAll _ (perform _ cw (.header op)) (fields.map .header) = _
    rw [ih]
    rfl

theorem performAll_fields_recorder (fields : List HeaderOp) (w : Recorder) :
    performAll recorder w (fields.map .header) =
      {w with header := fields.foldl HeaderOp.apply w.header} := by
  induction fields generalizing w with
  | nil => rfl
  | cons op fields ih =>
    change performAll _ (perform _ w (.header op)) (fields.map .header) = _
    rw [ih]
    rfl

theorem performAll_append {W : Type} (wr : ResponseWriter W) (w : W) (ops ops' : List Op) :
    performAll wr w (ops ++ ops') = performAll wr (performAll wr w ops) ops' :=
  List.foldl_append

theorem performAll_writes_recorder (w : Recorder) (ps : List (List UInt8)) :
    performAll recorder w (ps.map .write) = w.writes ps := by
  rw [performAll, List.foldl_map]
  rfl

/-- The recorded outcome for a client that accepts gzip. -/
theorem compress_accepted {r : Request} (hr : clientAcceptsGzip (r.header.get "Accept-Encoding") = true)
    (minSize : Int) (h : Header) (fields : List HeaderOp) (code : Option Int) (chunks : List (List UInt8)) :
    compress codec recorder minSize r (handlerOps fields code chunks) (fresh h) =
      outcome codec minSize (headerLeft h fields) (code.getD 0) [] chunks := by
  simp only [compress, hr, if_true, handlerOps, performAll_append, performAll_fields_buffering]
  rw [← performAll_buffering codec minSize (headerLeft h fields) (code.getD 0) [] codec.gzip.reset chunks]
  cases code with
  | none => rfl
  | some code => rfl

/-- For another client the calls are the handler's own. -/
theorem compress_refused {r : Request} (hr : clientAcceptsGzip (r.header.get "Accept-Encoding") = false)
    (minSize : Int) (h : Header) (fields : List HeaderOp) (code : Option Int) (chunks : List (List UInt8)) :
    compress codec recorder minSize r (handlerOps fields code chunks) (fresh h) =
      (code.elim (fresh (headerLeft h fields)) fun c => begun c (headerLeft h fields)).writes chunks := by
  simp only [compress, hr, Bool.false_eq_true, if_false, handlerOps, performAll_append,
    performAll_fields_recorder, performAll_writes_recorder]
  cases code with
  | none => rfl
  | some code => rfl

end Writer

/-- Nothing is lost or reordered at the crossing, and `minSize` is reached there. -/
theorem crossing_spec {minSize : Int} {buf x : List UInt8} {ps rest : List (List UInt8)}
    (h : crossing minSize buf ps = some (x, rest)) :
    x ++ rest.flatten = buf ++ ps.flatten ∧ minSize ≤ x.length := by
  induction ps generalizing buf with
  | nil => cases h
  | cons p ps ih =>
    rw [crossing] at h
    split at h
    · obtain ⟨hbody, hsize⟩ := ih h
      exact ⟨by rw [hbody, List.flatten_cons, List.append_assoc], hsize⟩
    · rename_i hlt
      obtain ⟨rfl, rfl⟩ := Prod.mk.inj (Option.some.inj h)
      exact ⟨by rw [List.flatten_cons, List.append_assoc], not_lt.mp hlt⟩

section Outcome
variable (code : Int) (h : Header) (ps : List (List UInt8))

theorem headerOnce_begun : HeaderOnce ((begun code h).writes ps) := by
  intro c hc
  rw [writes_calls] at hc
  obtain ⟨b, -, rfl⟩ := List.mem_map.mp hc
  exact ⟨b, rfl⟩

theorem headerOnce_fresh : HeaderOnce ((fresh h).writes ps) := by
  intro c hc
  rw [writes_calls] at hc
  obtain ⟨b, -, rfl⟩ := List.mem_map.mp (List.mem_of_mem_tail hc)
  exact ⟨b, rfl⟩

theorem passed_begun : Passed h ps.flatten ((begun code h).writes ps) :=
  ⟨writes_bytes .., writes_sentHeader ..⟩

theorem passed_fresh : Passed h ps.flatten ((fresh h).writes ps) :=
  ⟨writes_bytes .., writes_sentHeader ..⟩

end Outcome

section Preserved
variable {codec : Codec} {minSize : Int} {r : Request} {h : Header} {fields : List HeaderOp}
  {code : Option Int} {chunks : List (List UInt8)}

theorem headerOnce_outcome (c : Int) (buf : List UInt8) (ps : List (List UInt8)) :
    HeaderOnce (outcome codec minSize h c buf ps) := by
  unfold outcome
  split
  · exact headerOnce_begun _ _ _
  · split
    · exact headerOnce_begun _ _ _
    · exact headerOnce_begun _ _ _

/-- The client accepts gzip, and the buffer is compressed when it reaches `minSize`. -/
theorem zipped_outcome (hr : clientAcceptsGzip (r.header.get "Accept-Encoding") = true) {c : Int}
    {x : List UInt8} {rest : List (List UInt8)} (hcross : crossing minSize [] chunks = some (x, rest))
    (hz : zips codec h x = true) (hunset : h.values "Content-Encoding" = []) :
    Zipped codec.gzip minSize r h chunks.flatten (outcome codec minSize h c [] chunks) := by
  obtain ⟨hbody, hsize⟩ := crossing_spec hcross
  rw [List.nil_append] at hbody
  simp only [outcome, hcross, hz, if_true]
  have hbytes : ((begun (sentStatus c) ((h.set contentEncoding "gzip").del contentLength)).writes
      (emitted codec.gzip codec.gzip.reset (x :: rest))).bytes = stream codec.gzip (x :: rest) :=
    writes_bytes ..
  refine ⟨⟨x :: rest, hbody, hbytes⟩, ?_, writes_sentHeader .., hr, ?_, hunset⟩
  · intro decode hdecode
    rw [hbytes, hdecode, List.flatten_cons, hbody]
  · rw [← hbody, List.length_append]
    omega

theorem relabelled_ne {x : List UInt8} (hz : zips codec h x = true) :
    (h.set contentEncoding "gzip").del contentLength ≠ h := by
  intro heq
  have hvalues : ((h.set contentEncoding "gzip").del contentLength).values "Content-Encoding" = ["gzip"] := by
    rw [Header.values_del_of_ne _ (by decide), Header.values_set_self _ (by decide)]
  have hempty : h.get "Content-Encoding" = "" := of_decide_eq_true (Bool.and_eq_true_iff.mp hz).1
  rw [← heq, Header.get, hvalues] at hempty
  exact absurd hempty (by decide)

theorem passed_outcome {c : Int} (hnot : ∀ x ∈ crossing minSize [] chunks, zips codec h x.1 = false) :
    Passed h chunks.flatten (outcome codec minSize h c [] chunks) := by
  cases hcross : crossing minSize [] chunks with
  | none =>
    simp only [outcome, hcross, List.nil_append]
    have hpassed := passed_begun (sentStatus c) h [chunks.flatten]
    rwa [List.flatten_singleton] at hpassed
  | some cut =>
    obtain ⟨x, rest⟩ := cut
    have hbody := (crossing_spec hcross).1
    rw [List.nil_append] at hbody
    simp only [outcome, hcross, hnot (x, rest) hcross, Bool.false_eq_true, if_false]
    rw [← hbody]
    exact passed_begun (sentStatus c) h (x :: rest)

/-- Every way of writing a body is preserved, except where the handler's encoding stands behind an
empty line and the body is compressed over it. -/
theorem preserved_iff (codec : Codec) (minSize : Int) (r : Request) (h : Header) (fields : List HeaderOp)
    (code : Option Int) (chunks : List (List UInt8)) :
    Preserved codec minSize r h fields code chunks ↔
      ¬ Relabels codec minSize r (headerLeft h fields) chunks := by
  unfold Preserved
  cases hr : clientAcceptsGzip (r.header.get "Accept-Encoding") with
  | false =>
    rw [compress_refused codec hr]
    refine iff_of_true ?_ fun hrel => absurd (hr.symm.trans hrel.1) nofun
    cases code with
    | none => exact ⟨headerOnce_fresh _ _, .inl (passed_fresh _ _)⟩
    | some code => exact ⟨headerOnce_begun _ _ _, .inl (passed_begun _ _ _)⟩
  | true =>
    rw [compress_accepted codec hr]
    constructor
    · rintro ⟨-, hends⟩ ⟨-, hset, ⟨x, rest⟩, hcross, hz⟩
      rcases hends with hpassed | hzipped
      · have hheader := hpassed.header
        simp only [outcome, Option.mem_def.mp hcross, hz, if_true] at hheader
        rw [writes_sentHeader] at hheader
        exact relabelled_ne hz hheader
      · exact hset hzipped.unset
    · intro hrel
      refine ⟨headerOnce_outcome _ _ _, ?_⟩
      by_cases hzips : ∃ x ∈ crossing minSize [] chunks, zips codec (headerLeft h fields) x.1 = true
      · obtain ⟨⟨x, rest⟩, hcross, hz⟩ := hzips
        have hunset : (headerLeft h fields).values "Content-Encoding" = [] := by
          by_contra hset
          exact hrel ⟨hr, hset, _, hcross, hz⟩
        exact .inr (zipped_outcome hr hcross hz hunset)
      · refine .inl (passed_outcome fun x hx => ?_)
        exact Bool.eq_false_iff.mpr fun hz => hzips ⟨x, hx, hz⟩

end Preserved

/-- The bytes of `hello, world` and a line end, and what the encoder makes of them: ten bytes with
the first write, the rest at `Close`. On other bodies it stores. -/
def hello : List UInt8 := [104, 101, 108, 108, 111, 44, 32, 119, 111, 114, 108, 100, 10]

def gzipHeader : List UInt8 := [31, 139, 8, 0, 0, 0, 0, 0, 0, 255]

def deflated (body : List UInt8) : List UInt8 :=
  if body = hello then
    [202, 72, 205, 201, 201, 215, 81, 40, 207, 47, 202, 73, 225, 2, 4, 0, 0, 255, 255, 83, 116, 36, 244,
      13, 0, 0, 0]
  else 0 :: body

def helloCodec : Codec where
  gzip := {
    State := Option (List UInt8)
    reset := none
    write := fun s b => (some (s.getD [] ++ b), if s.isSome then [] else gzipHeader)
    close := fun s => match s with
      | some body => deflated body
      | none => gzipHeader ++ deflated [] }
  detectContentType _ := "text/plain; charset=utf-8"

def acceptsGzip : Request :=
  ⟨"GET", ⟨"/p", "", []⟩, ⟨[(acceptEncoding, "gzip")]⟩, "gateway", "10.0.0.1:40000", false⟩

def behindEmptyLine : List HeaderOp :=
  [.add contentType "text/plain", .add contentEncoding "", .add contentEncoding "br"]

/-- The handler leaves two lines of the encoding, the first empty. Its body is compressed, and the
one label that goes out is `gzip`. -/
theorem encoding_relabelled :
    (headerLeft .empty behindEmptyLine).values "Content-Encoding" = ["", "br"] ∧
      (compress helloCodec recorder 1 acceptsGzip (handlerOps behindEmptyLine (some 200) [hello])
        (fresh .empty)).bytes = gzipHeader ++ deflated hello ∧
      (compress helloCodec recorder 1 acceptsGzip (handlerOps behindEmptyLine (some 200) [hello])
        (fresh .empty)).sentHeader.values "Content-Encoding" = ["gzip"] := by
  decide +kernel

end ApiGateway.CompressBody
