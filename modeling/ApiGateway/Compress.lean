import ApiGateway.CacheControl

/-!
# The compression middleware

`internal/middleware/compress.go`, and the `captureWriter` of `cache.go` that it writes to
when the cache is mounted outside it. A handler is the list of the operations it performs
on its response writer. A response writer is an interface, so `Compress` is written over
any; the writer it hands to the handler passes header operations straight on to the one it
wraps. The gzip encoder and `http.DetectContentType` are parameters: an encoder puts out
some bytes at each `Write` and the rest at `Close`.
-/

namespace ApiGateway.Compress

open Strings Http CacheControl
set_option autoImplicit false

inductive HeaderOp where
  | add (name : FieldName) (value : String)
  | set (name : FieldName) (value : String)
  | del (name : FieldName)
  | clear
  deriving DecidableEq

def HeaderOp.apply (h : Header) : HeaderOp → Header
  | .add name value => h.add name value
  | .set name value => h.set name value
  | .del name => h.del name
  | .clear => .empty

inductive Op where
  | header (op : HeaderOp)
  | writeHeader (code : Int)
  | write (b : List UInt8)
  deriving DecidableEq

/-- `http.ResponseWriter`; `mapHeader` is what is done to the map that `Header()` returns. -/
structure ResponseWriter (W : Type) where
  header : W → Header
  mapHeader : (Header → Header) → W → W
  writeHeader : Int → W → W
  write : List UInt8 → W → W

def perform {W : Type} (wr : ResponseWriter W) (w : W) : Op → W
  | .header op => wr.mapHeader (fun h => op.apply h) w
  | .writeHeader code => wr.writeHeader code w
  | .write b => wr.write b w

def performAll {W : Type} (wr : ResponseWriter W) (w : W) (ops : List Op) : W :=
  ops.foldl (perform wr) w

def captureWriter : ResponseWriter Response where
  header w := w.header
  mapHeader f w := {w with header := f w.header}
  writeHeader code w := {w with status := code}
  write b w := {w with status := if w.status = 0 then 200 else w.status, body := w.body ++ b}

structure Gzip where
  State : Type
  reset : State
  write : State → List UInt8 → State × List UInt8
  close : State → List UInt8

structure Codec where
  gzip : Gzip
  detectContentType : List UInt8 → String

structure CompressWriter (gzip : Gzip) (W : Type) where
  outer : W
  gz : gzip.State
  minSize : Int
  wroteHead : Bool
  compress : Bool
  buf : List UInt8
  statusCode : Int

def compressibleContentTypes : List String :=
  ["text/", "application/json", "application/xml", "application/javascript",
    "application/x-www-form-urlencoded"]

def isCompressibleType (codec : Codec) (contentType : String) (sniff : List UInt8) : Bool :=
  let contentType := if contentType = "" then codec.detectContentType sniff else contentType
  compressibleContentTypes.any fun start => hasPrefix (trimSpace (cut contentType ';').1) start

/-- `strings.EqualFold`, right for a text that has no `k` or `s`. -/
def equalFold (s t : String) : Bool := s.toList.map Char.toLower = t.toList.map Char.toLower

def clientAcceptsGzip (header : String) : Bool :=
  (splitSeq header ',').any fun part => equalFold (trimSpace (cut (trimSpace part) ';').1) "gzip"

namespace CompressWriter
variable {W : Type} (codec : Codec) (wr : ResponseWriter W)

def decide (cw : CompressWriter codec.gzip W) : CompressWriter codec.gzip W :=
  let header := wr.header cw.outer
  if header.get "Content-Encoding" ≠ "" then {cw with compress := false}
  else if !isCompressibleType codec (header.get "Content-Type") cw.buf then {cw with compress := false}
  else {cw with
    compress := true
    outer := wr.mapHeader (fun h => (h.set contentEncoding "gzip").del contentLength) cw.outer}

def flushBuffered (cw : CompressWriter codec.gzip W) : CompressWriter codec.gzip W :=
  let outer := wr.writeHeader (if cw.statusCode = 0 then 200 else cw.statusCode) cw.outer
  if cw.compress then
    let zipped := codec.gzip.write codec.gzip.reset cw.buf
    {cw with wroteHead := true, gz := zipped.1, outer := wr.write zipped.2 outer, buf := []}
  else {cw with wroteHead := true, outer := wr.write cw.buf outer, buf := []}

def write (cw : CompressWriter codec.gzip W) (b : List UInt8) : CompressWriter codec.gzip W :=
  if cw.wroteHead then
    if cw.compress then
      let zipped := codec.gzip.write cw.gz b
      {cw with gz := zipped.1, outer := wr.write zipped.2 cw.outer}
    else {cw with outer := wr.write b cw.outer}
  else
    let cw := {cw with buf := cw.buf ++ b}
    if (cw.buf.length : Int) < cw.minSize then cw
    else flushBuffered codec wr (decide codec wr cw)

def finish (cw : CompressWriter codec.gzip W) : CompressWriter codec.gzip W :=
  let cw := if cw.wroteHead then cw else flushBuffered codec wr {cw with compress := false}
  if cw.compress then {cw with outer := wr.write (codec.gzip.close cw.gz) cw.outer} else cw

def responseWriter : ResponseWriter (CompressWriter codec.gzip W) where
  header cw := wr.header cw.outer
  mapHeader f cw := {cw with outer := wr.mapHeader f cw.outer}
  writeHeader code cw := {cw with statusCode := code}
  write b cw := write codec wr cw b

end CompressWriter

/-- `Compress(minSize)` around a handler that performs `ops`. -/
def compress {W : Type} (codec : Codec) (wr : ResponseWriter W) (minSize : Int) (r : Request)
    (ops : List Op) (w : W) : W :=
  let w := wr.mapHeader (fun h => h.add varyName "Accept-Encoding") w
  if clientAcceptsGzip (r.header.get "Accept-Encoding") then
    let cw := performAll (CompressWriter.responseWriter codec wr)
      ⟨w, codec.gzip.reset, minSize, false, false, [], 0⟩ ops
    (CompressWriter.finish codec wr cw).outer
  else performAll wr w ops

/-- Every operation of the writer keeps `P`. -/
structure Kept {W : Type} (wr : ResponseWriter W) (P : W → Prop) : Prop where
  mapHeader : ∀ w f, P w → P (wr.mapHeader f w)
  writeHeader : ∀ w code, P w → P (wr.writeHeader code w)
  write : ∀ w b, P w → P (wr.write b w)

section Kept
variable {W : Type} {wr : ResponseWriter W} {P : W → Prop}

theorem Kept.perform (h : Kept wr P) {w : W} (hw : P w) (op : Op) : P (perform wr w op) := by
  cases op with
  | header op => exact h.mapHeader w _ hw
  | writeHeader code => exact h.writeHeader w code hw
  | write b => exact h.write w b hw

theorem Kept.performAll (h : Kept wr P) {w : W} (hw : P w) (ops : List Op) : P (performAll wr w ops) := by
  induction ops generalizing w with
  | nil => exact hw
  | cons op ops ih => exact ih (h.perform hw op)

theorem Kept.decide (h : Kept wr P) (codec : Codec) {cw : CompressWriter codec.gzip W} (hw : P cw.outer) :
    P (CompressWriter.decide codec wr cw).outer := by
  unfold CompressWriter.decide
  dsimp only
  split
  · exact hw
  · split
    · exact hw
    · exact h.mapHeader _ _ hw

theorem Kept.flushBuffered (h : Kept wr P) (codec : Codec) {cw : CompressWriter codec.gzip W}
    (hw : P cw.outer) : P (CompressWriter.flushBuffered codec wr cw).outer := by
  unfold CompressWriter.flushBuffered
  dsimp only
  split
  · exact h.write _ _ (h.writeHeader _ _ hw)
  · exact h.write _ _ (h.writeHeader _ _ hw)

/-- What the operations of the outer writer keep, those of the compressing one keep of it. -/
theorem Kept.compressWriter (h : Kept wr P) (codec : Codec) :
    Kept (CompressWriter.responseWriter codec wr) fun cw => P cw.outer where
  mapHeader cw f hw := h.mapHeader _ f hw
  writeHeader cw code hw := hw
  write cw b hw := by
    change P (CompressWriter.write codec wr cw b).outer
    unfold CompressWriter.write
    split
    · split
      · exact h.write _ _ hw
      · exact h.write _ _ hw
    · dsimp only
      split
      · exact hw
      · exact h.flushBuffered codec (h.decide codec hw)

end Kept

def headerOf (h : Header) : Op → Header
  | .header op => op.apply h
  | .writeHeader _ => h
  | .write _ => h

/-- A handler's answer: header operations, one status, then the body in pieces. -/
def answerOps (fields : List HeaderOp) (code : Int) (chunks : List (List UInt8)) : List Op :=
  fields.map .header ++ .writeHeader code :: chunks.map .write

/-- The middleware never changes the lines of the name: it is neither of the two that it sets
and deletes when it compresses. -/
def Untouched (name : String) : Prop :=
  contentEncoding.text ≠ canonicalHeaderKey name ∧ contentLength.text ≠ canonicalHeaderKey name

instance (name : String) : Decidable (Untouched name) := inferInstanceAs (Decidable (_ ∧ _))

theorem values_apply {h h' : Header} {name : String} (hh : h.values name = h'.values name)
    (op : HeaderOp) : (op.apply h).values name = (op.apply h').values name := by
  cases op with
  | add n value =>
    by_cases hn : n.text = canonicalHeaderKey name
    · simp only [HeaderOp.apply, Header.values_add_self _ hn, hh]
    · simp only [HeaderOp.apply, Header.values_add_of_ne _ hn, hh]
  | set n value =>
    by_cases hn : n.text = canonicalHeaderKey name
    · simp only [HeaderOp.apply, Header.values_set_self _ hn]
    · simp only [HeaderOp.apply, Header.values_set_of_ne _ hn, hh]
  | del n =>
    by_cases hn : n.text = canonicalHeaderKey name
    · simp only [HeaderOp.apply, Header.values_del_self _ hn]
    · simp only [HeaderOp.apply, Header.values_del_of_ne _ hn, hh]
  | clear => rfl

theorem values_headerOf {h h' : Header} {name : String} (hh : h.values name = h'.values name)
    (ops : List Op) : (ops.foldl headerOf h).values name = (ops.foldl headerOf h').values name := by
  induction ops generalizing h h' with
  | nil => exact hh
  | cons op ops ih =>
    apply ih
    cases op with
    | header op => exact values_apply hh op
    | writeHeader code => exact hh
    | write b => exact hh

theorem headerOf_answerOps (h : Header) (fields : List HeaderOp) (code : Int)
    (chunks : List (List UInt8)) :
    (answerOps fields code chunks).foldl headerOf h = fields.foldl HeaderOp.apply h := by
  have hchunks (h : Header) : (chunks.map Op.write).foldl headerOf h = h := by
    induction chunks with
    | nil => rfl
    | cons b chunks ih => exact ih
  rw [answerOps, List.foldl_append, List.foldl_map, List.foldl_cons, hchunks]
  rfl

section Captured
variable (codec : Codec)

theorem header_performAll (w : Response) (ops : List Op) :
    (performAll captureWriter w ops).header = ops.foldl headerOf w.header := by
  induction ops generalizing w with
  | nil => rfl
  | cons op ops ih =>
    change (performAll captureWriter (perform captureWriter w op) ops).header = _
    rw [ih]
    cases op <;> rfl

theorem header_flushBuffered (cw : CompressWriter codec.gzip Response) :
    (CompressWriter.flushBuffered codec captureWriter cw).outer.header = cw.outer.header := by
  unfold CompressWriter.flushBuffered
  cases cw.compress <;> rfl

theorem values_decide (cw : CompressWriter codec.gzip Response) {name : String} (hn : Untouched name) :
    (CompressWriter.decide codec captureWriter cw).outer.header.values name =
      cw.outer.header.values name := by
  unfold CompressWriter.decide
  dsimp only
  split
  · rfl
  · split
    · rfl
    · change (Header.del (Header.set _ contentEncoding "gzip") contentLength).values name = _
      rw [Header.values_del_of_ne _ hn.2, Header.values_set_of_ne _ hn.1]

theorem values_write (cw : CompressWriter codec.gzip Response) (b : List UInt8) {name : String}
    (hn : Untouched name) :
    (CompressWriter.write codec captureWriter cw b).outer.header.values name =
      cw.outer.header.values name := by
  unfold CompressWriter.write
  split
  · split <;> rfl
  · dsimp only
    split
    · rfl
    · rw [header_flushBuffered, values_decide codec _ hn]

theorem values_performAll (cw : CompressWriter codec.gzip Response) (ops : List Op) {name : String}
    (hn : Untouched name) :
    (performAll (CompressWriter.responseWriter codec captureWriter) cw ops).outer.header.values name =
      (ops.foldl headerOf cw.outer.header).values name := by
  induction ops generalizing cw with
  | nil => rfl
  | cons op ops ih =>
    change (performAll _ (perform _ cw op) ops).outer.header.values name = _
    rw [ih]
    apply values_headerOf
    cases op with
    | header op => rfl
    | writeHeader code => rfl
    | write b => exact values_write codec cw b hn

theorem header_finish (cw : CompressWriter codec.gzip Response) :
    (CompressWriter.finish codec captureWriter cw).outer.header = cw.outer.header := by
  unfold CompressWriter.finish
  cases cw.wroteHead with
  | true =>
    simp only [if_true]
    split <;> rfl
  | false =>
    simp only [Bool.false_eq_true, if_false]
    split
    · exact header_flushBuffered codec _
    · exact header_flushBuffered codec _

/-- Apart from the lines of the encoding, the captured header is what the handler makes of a
map that already has the middleware's own Vary line. -/
theorem values_compress (minSize : Int) (r : Request) (ops : List Op) (w : Response) {name : String}
    (hn : Untouched name) :
    (compress codec captureWriter minSize r ops w).header.values name =
      (ops.foldl headerOf (w.header.add varyName "Accept-Encoding")).values name := by
  unfold compress
  dsimp only
  split
  · rw [header_finish, values_performAll codec _ _ hn]
    rfl
  · rw [header_performAll]
    rfl

/-- The status a handler wrote reaches the outer writer with the first byte. -/
structure Committed (code : Int) (cw : CompressWriter codec.gzip Response) : Prop where
  held : cw.statusCode = code
  sent : cw.wroteHead = true → cw.outer.status = code

variable {codec} {code : Int}

theorem status_flushBuffered (hcode : code ≠ 0) {cw : CompressWriter codec.gzip Response}
    (h : cw.statusCode = code) :
    (CompressWriter.flushBuffered codec captureWriter cw).outer.status = code := by
  unfold CompressWriter.flushBuffered
  cases cw.compress <;> simp [captureWriter, h, hcode]

theorem committed_flushBuffered (hcode : code ≠ 0) {cw : CompressWriter codec.gzip Response}
    (h : cw.statusCode = code) :
    Committed codec code (CompressWriter.flushBuffered codec captureWriter cw) := by
  refine ⟨?_, fun _ => status_flushBuffered hcode h⟩
  unfold CompressWriter.flushBuffered
  cases cw.compress <;> exact h

theorem statusCode_decide (cw : CompressWriter codec.gzip Response) :
    (CompressWriter.decide codec captureWriter cw).statusCode = cw.statusCode := by
  unfold CompressWriter.decide
  dsimp only
  split
  · rfl
  · split <;> rfl

theorem committed_write (hcode : code ≠ 0) {cw : CompressWriter codec.gzip Response}
    (h : Committed codec code cw) (b : List UInt8) :
    Committed codec code (CompressWriter.write codec captureWriter cw b) := by
  unfold CompressWriter.write
  split
  · rename_i hhead
    have hsent := h.sent hhead
    split
    · exact ⟨h.held, fun _ => by simp [captureWriter, hsent, hcode]⟩
    · exact ⟨h.held, fun _ => by simp [captureWriter, hsent, hcode]⟩
  · rename_i hhead
    dsimp only
    split
    · exact ⟨h.held, fun ht => absurd ht hhead⟩
    · exact committed_flushBuffered hcode ((statusCode_decide _).trans h.held)

theorem status_finish (hcode : code ≠ 0) {cw : CompressWriter codec.gzip Response}
    (h : Committed codec code cw) :
    (CompressWriter.finish codec captureWriter cw).outer.status = code := by
  have hclose {cw : CompressWriter codec.gzip Response} (h : cw.outer.status = code) :
      (if cw.compress then {cw with outer := captureWriter.write (codec.gzip.close cw.gz) cw.outer}
        else cw).outer.status = code := by
    cases cw.compress with
    | true => simp [captureWriter, h, hcode]
    | false => simpa using h
  unfold CompressWriter.finish
  apply hclose
  split
  · rename_i hhead
    exact h.sent hhead
  · exact status_flushBuffered hcode h.held

theorem performAll_fields {W : Type} (wr : ResponseWriter W) (w : W) (fields : List HeaderOp)
    {P : W → Prop} (hP : ∀ w f, P w → P (wr.mapHeader f w)) (h : P w) :
    P (performAll wr w (fields.map .header)) := by
  induction fields generalizing w with
  | nil => exact h
  | cons op fields ih => exact ih _ (hP w _ h)

theorem performAll_chunks {W : Type} (wr : ResponseWriter W) (w : W) (chunks : List (List UInt8))
    {P : W → Prop} (hP : ∀ w b, P w → P (wr.write b w)) (h : P w) :
    P (performAll wr w (chunks.map .write)) := by
  induction chunks generalizing w with
  | nil => exact h
  | cons b chunks ih => exact ih _ (hP w b h)

theorem status_compress (hcode : code ≠ 0) (minSize : Int) (r : Request) (fields : List HeaderOp)
    (chunks : List (List UInt8)) (w : Response) :
    (compress codec captureWriter minSize r (answerOps fields code chunks) w).status = code := by
  unfold compress answerOps
  dsimp only
  split
  · apply status_finish hcode
    rw [performAll, List.foldl_append, List.foldl_cons]
    refine performAll_chunks _ _ chunks (fun cw b h => committed_write hcode h b) ?_
    have hfresh := performAll_fields (CompressWriter.responseWriter codec captureWriter)
      ⟨captureWriter.mapHeader (fun h => h.add varyName "Accept-Encoding") w, codec.gzip.reset,
        minSize, false, false, [], 0⟩ fields (P := fun cw => cw.wroteHead = false)
      (fun cw f h => h) rfl
    exact ⟨rfl, fun ht => absurd (hfresh.symm.trans ht) nofun⟩
  · rw [performAll, List.foldl_append, List.foldl_cons]
    refine performAll_chunks _ _ chunks (P := fun w : Response => w.status = code) ?_ rfl
    intro w b h
    simp [captureWriter, h, hcode]

end Captured

end ApiGateway.Compress
