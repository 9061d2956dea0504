import ApiGateway.CompressBody

/-!
# When a response is compressed, and under which header

A handler may do anything to the header map, to the status and to the body, in any order. The
writer of `Compress` decides once, at the `Write` that takes the buffer to `minSize` bytes, from
the header map and the buffer as they are then; whatever the handler does later changes neither the
decision nor the header that is sent.

Two things follow. The bytes that are sniffed for a type are those that happened to be buffered, so
the decision may depend on how the body was cut into writes. And the line `Vary: Accept-Encoding`,
put into the map before the handler runs, is sent only if the handler leaves it there.
-/

namespace ApiGateway.CompressDecision

open Strings Http CacheControl Compress CompressBody
set_option autoImplicit false

/-- The writer that `Compress` hands to the handler, after `finish`. -/
def finished {W : Type} (codec : Codec) (wr : ResponseWriter W) (minSize : Int) (ops : List Op) (w : W) :
    CompressWriter codec.gzip W :=
  CompressWriter.finish codec wr (performAll (CompressWriter.responseWriter codec wr)
    ⟨wr.mapHeader (fun h => h.add varyName "Accept-Encoding") w, codec.gzip.reset, minSize, false, false, [], 0⟩ ops)

/-- The client is taken to accept gzip, and the writer decided to compress. -/
def gzips {W : Type} (codec : Codec) (wr : ResponseWriter W) (minSize : Int) (r : Request) (ops : List Op)
    (w : W) : Bool :=
  clientAcceptsGzip (r.header.get "Accept-Encoding") && (finished codec wr minSize ops w).compress

theorem compress_eq {W : Type} (codec : Codec) (wr : ResponseWriter W) (minSize : Int) (r : Request)
    (ops : List Op) (w : W) :
    compress codec wr minSize r ops w =
      if clientAcceptsGzip (r.header.get "Accept-Encoding") then (finished codec wr minSize ops w).outer
      else performAll wr (wr.mapHeader (fun h => h.add varyName "Accept-Encoding") w) ops := rfl

/-- The operations before the `Write` that reaches `minSize`, and the bytes buffered with it. -/
def deciding (minSize : Int) (buf : List UInt8) : List Op → Option (List Op × List UInt8)
  | [] => none
  | .write b :: ops =>
    if ((buf ++ b).length : Int) < minSize then
      (deciding minSize (buf ++ b) ops).map fun d => (.write b :: d.1, d.2)
    else some ([], buf ++ b)
  | .header op :: ops => (deciding minSize buf ops).map fun d => (.header op :: d.1, d.2)
  | .writeHeader code :: ops => (deciding minSize buf ops).map fun d => (.writeHeader code :: d.1, d.2)

/-- The label that a compressed response goes out under. -/
def relabelled (h : Header) : Header := (h.set contentEncoding "gzip").del contentLength

/-- The decision and the header sent, from the map, the buffer and the operations. -/
def verdict (codec : Codec) (minSize : Int) (h : Header) (buf : List UInt8) (ops : List Op) : Bool × Header :=
  match deciding minSize buf ops with
  | none => (false, ops.foldl headerOf h)
  | some (before, x) =>
    if zips codec (before.foldl headerOf h) x then (true, relabelled (before.foldl headerOf h))
    else (false, before.foldl headerOf h)

section Verdict
variable (codec : Codec) (minSize : Int)

/-- The decision has been taken and the header is out. -/
structure Decided (zip : Bool) (h : Header) (cw : CompressWriter codec.gzip Recorder) : Prop where
  wroteHead : cw.wroteHead = true
  compress : cw.compress = zip
  sent : cw.outer.sent = some h

theorem sent_call {w : Recorder} {h : Header} (hw : w.sent = some h) (c : Call) : (w.call c).sent = some h := by
  simp [Recorder.call, hw]

theorem kept_decided (zip : Bool) (h : Header) :
    Kept (CompressWriter.responseWriter codec recorder) (Decided codec zip h) where
  mapHeader cw f hd := ⟨hd.wroteHead, hd.compress, hd.sent⟩
  writeHeader cw code hd := ⟨hd.wroteHead, hd.compress, hd.sent⟩
  write cw b hd := by
    change Decided codec zip h (CompressWriter.write codec recorder cw b)
    unfold CompressWriter.write
    rw [if_pos hd.wroteHead]
    split
    · exact ⟨hd.wroteHead, hd.compress, sent_call hd.sent _⟩
    · exact ⟨hd.wroteHead, hd.compress, sent_call hd.sent _⟩

theorem finish_decided {zip : Bool} {h : Header} {cw : CompressWriter codec.gzip Recorder}
    (hd : Decided codec zip h cw) : Decided codec zip h (CompressWriter.finish codec recorder cw) := by
  unfold CompressWriter.finish
  rw [if_pos hd.wroteHead]
  dsimp only
  split
  · exact ⟨hd.wroteHead, hd.compress, sent_call hd.sent _⟩
  · exact hd

theorem flushBuffered_decided (cw : CompressWriter codec.gzip Recorder) (hsent : cw.outer.sent = none) :
    Decided codec cw.compress cw.outer.header (CompressWriter.flushBuffered codec recorder cw) := by
  unfold CompressWriter.flushBuffered
  cases cw.compress with
  | true => exact ⟨rfl, rfl, by simp [recorder, Recorder.call, hsent]⟩
  | false => exact ⟨rfl, rfl, by simp [recorder, Recorder.call, hsent]⟩

/-- Nothing has been sent, and `buf` is held back. -/
def holding (s : codec.gzip.State) (h : Header) (buf : List UInt8) (code : Int) :
    CompressWriter codec.gzip Recorder := ⟨fresh h, s, minSize, false, false, buf, code⟩

/-- The `Write` that reaches `minSize` decides. -/
theorem write_decided (s : codec.gzip.State) (h : Header) (buf b : List UInt8) (code : Int)
    (hge : ¬ ((buf ++ b).length : Int) < minSize) :
    Decided codec (zips codec h (buf ++ b)) (if zips codec h (buf ++ b) then relabelled h else h)
      (CompressWriter.write codec recorder (holding codec minSize s h buf code) b) := by
  have hwrite : CompressWriter.write codec recorder (holding codec minSize s h buf code) b =
      CompressWriter.flushBuffered codec recorder (CompressWriter.decide codec recorder
        (holding codec minSize s h (buf ++ b) code)) := by
    unfold holding
    simp only [CompressWriter.write, Bool.false_eq_true, if_false, if_neg hge]
  rw [hwrite, decide_eq]
  change Decided codec _ _ (CompressWriter.flushBuffered codec recorder (if zips codec h (buf ++ b) then _ else _))
  cases hz : zips codec h (buf ++ b) with
  | true => exact flushBuffered_decided codec ⟨fresh (relabelled h), s, minSize, false, true, buf ++ b, code⟩ rfl
  | false => exact flushBuffered_decided codec (holding codec minSize s h (buf ++ b) code) rfl

theorem verdict_header (h : Header) (buf : List UInt8) (op : HeaderOp) (ops : List Op) :
    verdict codec minSize h buf (.header op :: ops) = verdict codec minSize (op.apply h) buf ops := by
  simp only [verdict, deciding]
  cases deciding minSize buf ops <;> rfl

theorem verdict_writeHeader (h : Header) (buf : List UInt8) (code : Int) (ops : List Op) :
    verdict codec minSize h buf (.writeHeader code :: ops) = verdict codec minSize h buf ops := by
  simp only [verdict, deciding]
  cases deciding minSize buf ops <;> rfl

theorem verdict_write_short (h : Header) {buf b : List UInt8} (hlt : ((buf ++ b).length : Int) < minSize)
    (ops : List Op) : verdict codec minSize h buf (.write b :: ops) = verdict codec minSize h (buf ++ b) ops := by
  simp only [verdict, deciding, if_pos hlt]
  cases deciding minSize (buf ++ b) ops <;> rfl

theorem verdict_write_reached (h : Header) {buf b : List UInt8} (hge : ¬ ((buf ++ b).length : Int) < minSize)
    (ops : List Op) :
    verdict codec minSize h buf (.write b :: ops) =
      (zips codec h (buf ++ b), if zips codec h (buf ++ b) then relabelled h else h) := by
  have hdec : deciding minSize buf (.write b :: ops) = some ([], buf ++ b) := if_neg hge
  simp only [verdict, hdec]
  cases hz : zips codec h (buf ++ b) <;> simp [hz]

/-- By induction on the operations, for any buffer: an operation is taken in, or it is the `Write`
that decides, and then the rest changes nothing. -/
theorem performAll_holding (s : codec.gzip.State) (h : Header) (buf : List UInt8) (code : Int) (ops : List Op) :
    Decided codec (verdict codec minSize h buf ops).1 (verdict codec minSize h buf ops).2
      (CompressWriter.finish codec recorder (performAll (CompressWriter.responseWriter codec recorder)
        (holding codec minSize s h buf code) ops)) := by
  induction ops generalizing h buf code with
  | nil => exact flushBuffered_decided codec (holding codec minSize s h buf code) rfl
  | cons op ops ih =>
    cases op with
    | header op =>
      rw [verdict_header]
      exact ih (op.apply h) buf code
    | writeHeader c =>
      rw [verdict_writeHeader]
      exact ih h buf c
    | write b =>
      by_cases hlt : ((buf ++ b).length : Int) < minSize
      · have hheld : CompressWriter.write codec recorder (holding codec minSize s h buf code) b =
            holding codec minSize s h (buf ++ b) code := by
          unfold holding
          simp only [CompressWriter.write, Bool.false_eq_true, if_false, if_pos hlt]
        rw [verdict_write_short codec minSize h hlt]
        change Decided codec _ _ (CompressWriter.finish codec recorder (performAll _
          (CompressWriter.write codec recorder (holding codec minSize s h buf code) b) ops))
        rw [hheld]
        exact ih h (buf ++ b) code
      · rw [verdict_write_reached codec minSize h hlt]
        exact finish_decided codec ((kept_decided codec _ _).performAll
          (write_decided codec minSize s h buf b code hlt) ops)

end Verdict

section Sent
variable (codec : Codec) (minSize : Int) (r : Request) (h : Header) (ops : List Op)

theorem finished_decided :
    Decided codec (verdict codec minSize (h.add varyName "Accept-Encoding") [] ops).1
      (verdict codec minSize (h.add varyName "Accept-Encoding") [] ops).2
      (finished codec recorder minSize ops (fresh h)) :=
  performAll_holding codec minSize codec.gzip.reset _ [] 0 ops

theorem gzips_eq : gzips codec recorder minSize r ops (fresh h) =
    (clientAcceptsGzip (r.header.get "Accept-Encoding") &&
      (verdict codec minSize (h.add varyName "Accept-Encoding") [] ops).1) := by
  rw [gzips, (finished_decided codec minSize h ops).compress]

/-- The header a client that accepts gzip is sent. -/
theorem sentHeader_compress (hr : clientAcceptsGzip (r.header.get "Accept-Encoding") = true) :
    (compress codec recorder minSize r ops (fresh h)).sentHeader =
      (verdict codec minSize (h.add varyName "Accept-Encoding") [] ops).2 := by
  rw [compress_eq, if_pos hr, Recorder.sentHeader, (finished_decided codec minSize h ops).sent, Option.getD_some]

end Sent

/-- The writes reach `minSize` in a response without an encoding and of a compressible type. -/
def Zippable (codec : Codec) (minSize : Int) (h : Header) (ops : List Op) : Prop :=
  ∃ d ∈ deciding minSize [] ops, zips codec (d.1.foldl headerOf h) d.2 = true

theorem verdict_zips (codec : Codec) (minSize : Int) (h : Header) (ops : List Op) :
    (verdict codec minSize h [] ops).1 = true ↔ Zippable codec minSize h ops := by
  rw [verdict, Zippable]
  cases hdec : deciding minSize [] ops with
  | none => simp
  | some d =>
    obtain ⟨before, x⟩ := d
    cases hz : zips codec (before.foldl headerOf h) x with
    | true => simp [hz]
    | false => simp [hz]

section Chunking
variable {codec : Codec} {minSize : Int} {r : Request} {h : Header} {fields : List HeaderOp} {code : Option Int}

/-- The same decision and the same header, however the body is cut into writes. -/
def ChunkingFree (codec : Codec) (minSize : Int) (r : Request) (h : Header) (fields : List HeaderOp)
    (code : Option Int) (body : List UInt8) : Prop :=
  ∀ chunks chunks' : List (List UInt8), chunks.flatten = body → chunks'.flatten = body →
    gzips codec recorder minSize r (handlerOps fields code chunks) (fresh h) =
        gzips codec recorder minSize r (handlerOps fields code chunks') (fresh h) ∧
      (compress codec recorder minSize r (handlerOps fields code chunks) (fresh h)).sentHeader =
        (compress codec recorder minSize r (handlerOps fields code chunks') (fresh h)).sentHeader

/-- `http.DetectContentType` considers at most the first 512 bytes. -/
def Sniffs (codec : Codec) : Prop := ∀ b, codec.detectContentType b = codec.detectContentType (b.take 512)

/-- The beginnings of the body that reach `minSize` and are shorter than what is sniffed. Each is
taken for compressible exactly if the body is. -/
def SniffsAlike (codec : Codec) (minSize : Int) (body : List UInt8) : Prop :=
  ∀ n : Nat, minSize ≤ n → n ≤ body.length → n < 512 →
    isCompressibleType codec "" (body.take n) = isCompressibleType codec "" body

theorem verdict_writes (codec : Codec) (minSize : Int) (h : Header) (buf : List UInt8) (chunks : List (List UInt8)) :
    verdict codec minSize h buf (chunks.map .write) =
      match crossing minSize buf chunks with
      | none => (false, h)
      | some (x, _) => (zips codec h x, if zips codec h x then relabelled h else h) := by
  induction chunks generalizing buf with
  | nil => rfl
  | cons c cs ih =>
    rw [List.map_cons, crossing]
    by_cases hlt : ((buf ++ c).length : Int) < minSize
    · rw [verdict_write_short codec minSize h hlt, if_pos hlt, ih]
    · rw [verdict_write_reached codec minSize h hlt, if_neg hlt]

theorem verdict_fields (codec : Codec) (minSize : Int) (h : Header) (fields : List HeaderOp)
    (code : Option Int) (chunks : List (List UInt8)) :
    verdict codec minSize h [] (handlerOps fields code chunks) =
      verdict codec minSize (fields.foldl HeaderOp.apply h) [] (chunks.map .write) := by
  induction fields generalizing h with
  | nil =>
    cases code with
    | none => rfl
    | some code => exact verdict_writeHeader codec minSize h [] code _
  | cons op fields ih =>
    change verdict codec minSize h [] (.header op :: handlerOps fields code chunks) = _
    rw [verdict_header, ih, List.foldl_cons]

theorem verdict_handlerOps (codec : Codec) (minSize : Int) (h : Header) (fields : List HeaderOp)
    (code : Option Int) (chunks : List (List UInt8)) :
    verdict codec minSize (h.add varyName "Accept-Encoding") [] (handlerOps fields code chunks) =
      verdict codec minSize (headerLeft h fields) [] (chunks.map .write) :=
  verdict_fields codec minSize _ fields code chunks

theorem crossing_eq_none {buf : List UInt8} {ps : List (List UInt8)} (hbuf : (buf.length : Int) < minSize) :
    crossing minSize buf ps = none ↔ ((buf ++ ps.flatten).length : Int) < minSize := by
  induction ps generalizing buf with
  | nil => simp [crossing, hbuf]
  | cons p ps ih =>
    rw [crossing, List.flatten_cons, ← List.append_assoc]
    split
    · rename_i hlt
      exact ih hlt
    · rename_i hge
      refine iff_of_false (Option.some_ne_none _) ?_
      rw [List.length_append]
      omega

/-- What decides when the whole body is in one write. -/
def wholeVerdict (codec : Codec) (minSize : Int) (h : Header) (body : List UInt8) : Bool × Header :=
  if (body.length : Int) < minSize then (false, h)
  else (zips codec h body, if zips codec h body then relabelled h else h)

theorem verdict_eq_whole (hmin : 1 ≤ minSize) {chunks : List (List UInt8)}
    (hx : ∀ x ∈ crossing minSize [] chunks, zips codec h x.1 = zips codec h chunks.flatten) :
    verdict codec minSize h [] (chunks.map .write) = wholeVerdict codec minSize h chunks.flatten := by
  have hzero : (([] : List UInt8).length : Int) < minSize := by
    rw [List.length_nil]
    omega
  rw [verdict_writes, wholeVerdict]
  cases hcross : crossing minSize [] chunks with
  | none =>
    have hshort := (crossing_eq_none hzero).mp hcross
    rw [List.nil_append] at hshort
    rw [if_pos hshort]
  | some cut =>
    have hlong : ¬ (chunks.flatten.length : Int) < minSize := by
      intro hlt
      rw [(crossing_eq_none hzero).mpr (by rwa [List.nil_append])] at hcross
      cases hcross
    rw [if_neg hlong]
    change (zips codec h cut.1, if zips codec h cut.1 then relabelled h else h) = _
    rw [hx cut hcross]

theorem isCompressibleType_alike (hsniff : Sniffs codec) {body x rest : List UInt8}
    (halike : SniffsAlike codec minSize body)
    (hbody : x ++ rest = body) (hsize : minSize ≤ x.length) :
    isCompressibleType codec "" x = isCompressibleType codec "" body := by
  by_cases hlong : x.length < 512
  · have hle : x.length ≤ body.length := by
      rw [← hbody, List.length_append]
      omega
    have htake : body.take x.length = x := by rw [← hbody, List.take_left]
    rw [← halike x.length hsize hle hlong, htake]
  · have htake : body.take 512 = x.take 512 := by
      rw [← hbody, List.take_append_of_le_length (by omega)]
    simp only [isCompressibleType, if_true]
    rw [hsniff x, hsniff body, htake]

/-- The bytes at the crossing matter only where nothing is set and a type is sniffed. -/
theorem zips_crossing (hsniff : Sniffs codec) {body : List UInt8}
    (hcond : h.get "Content-Encoding" ≠ "" ∨ h.get "Content-Type" ≠ "" ∨ SniffsAlike codec minSize body)
    {chunks : List (List UInt8)} (hchunks : chunks.flatten = body) :
    ∀ x ∈ crossing minSize [] chunks, zips codec h x.1 = zips codec h chunks.flatten := by
  rintro ⟨x, rest⟩ hx
  obtain ⟨hbody, hsize⟩ := crossing_spec (Option.mem_def.mp hx)
  rw [List.nil_append, hchunks] at hbody
  unfold zips
  rcases hcond with henc | htype | halike
  · simp [henc]
  · simp [isCompressibleType, htype]
  · by_cases htype : h.get "Content-Type" = ""
    · rw [htype, hchunks, isCompressibleType_alike hsniff halike hbody hsize]
    · simp [isCompressibleType, htype]

/-- The decision and the header do not depend on the writes, unless a type is sniffed and two
beginnings of the body of at least `minSize` bytes, one of them shorter than what is sniffed, are
taken for different types. -/
theorem chunkingFree_iff (codec : Codec) (minSize : Int) (r : Request) (h : Header) (fields : List HeaderOp)
    (code : Option Int) (body : List UInt8) (hsniff : Sniffs codec) (hmin : 1 ≤ minSize) :
    ChunkingFree codec minSize r h fields code body ↔
      (clientAcceptsGzip (r.header.get "Accept-Encoding") = false ∨
        (headerLeft h fields).get "Content-Encoding" ≠ "" ∨ (headerLeft h fields).get "Content-Type" ≠ "" ∨
        SniffsAlike codec minSize body) := by
  unfold ChunkingFree
  cases hr : clientAcceptsGzip (r.header.get "Accept-Encoding") with
  | false =>
    refine iff_of_true ?_ (.inl rfl)
    intro chunks chunks' _ _
    refine ⟨by simp [gzips, hr], ?_⟩
    rw [compress_refused codec hr, compress_refused codec hr, writes_sentHeader, writes_sentHeader]
  | true =>
    simp only [sentHeader_compress _ _ _ _ _ hr, gzips_eq, hr, verdict_handlerOps, Bool.true_and,
      Bool.true_eq_false, false_or]
    constructor
    · intro hfree
      by_contra hcond
      simp only [not_or, not_not] at hcond
      obtain ⟨henc, htype, halike⟩ := hcond
      refine halike fun n hn hle _ => ?_
      -- the body in one write, and cut after n bytes
      have hcut := (hfree [body.take n, body.drop n] [body] (by simp) (by simp)).1
      have hfirst : ¬ ((([] : List UInt8) ++ body.take n).length : Int) < minSize := by
        simp only [List.nil_append, List.length_take]
        omega
      have hwhole : ¬ ((([] : List UInt8) ++ body).length : Int) < minSize := by
        simp only [List.nil_append]
        omega
      rw [List.map_cons, verdict_write_reached codec minSize _ hfirst, List.map_cons,
        verdict_write_reached codec minSize _ hwhole] at hcut
      simpa [zips, henc, htype] using hcut
    · intro hcond chunks chunks' hbody hbody'
      have hzips := zips_crossing hsniff hcond hbody
      have hzips' := zips_crossing hsniff hcond hbody'
      rw [verdict_eq_whole hmin hzips, verdict_eq_whole hmin hzips', hbody, hbody']
      exact ⟨rfl, rfl⟩

/-- The bytes that `http.DetectContentType` does not take for text. -/
def isBinary (b : UInt8) : Bool := b ≤ 8 || b == 11 || (14 ≤ b && b ≤ 26) || (28 ≤ b && b ≤ 31)

/-- The rule it ends with, for bytes that have none of its signatures. -/
def sniffText (b : List UInt8) : String :=
  if (b.take 512).any isBinary then "application/octet-stream" else "text/plain; charset=utf-8"

def sniffingCodec : Codec := {helloCodec with detectContentType := sniffText}

theorem sniffs_sniffingCodec : Sniffs sniffingCodec := by
  intro b
  simp [sniffingCodec, sniffText, List.take_take]

/-- A letter and a zero byte, without a type. In two writes the letter decides and the body is
compressed; in one the zero byte is seen and it is not. -/
theorem chunking_decides : Sniffs sniffingCodec ∧
    gzips sniffingCodec recorder 1 acceptsGzip (handlerOps [] (some 200) [[97], [0]]) (fresh .empty) = true ∧
    gzips sniffingCodec recorder 1 acceptsGzip (handlerOps [] (some 200) [[97, 0]]) (fresh .empty) = false ∧
    ¬ ChunkingFree sniffingCodec 1 acceptsGzip .empty [] (some 200) [97, 0] := by
  have hcut : gzips sniffingCodec recorder 1 acceptsGzip (handlerOps [] (some 200) [[97], [0]])
      (fresh .empty) = true := by
    decide +kernel
  have hwhole : gzips sniffingCodec recorder 1 acceptsGzip (handlerOps [] (some 200) [[97, 0]])
      (fresh .empty) = false := by
    decide +kernel
  refine ⟨sniffs_sniffingCodec, hcut, hwhole, fun hfree => ?_⟩
  have heq := (hfree [[97], [0]] [[97, 0]] rfl rfl).1
  rw [hcut, hwhole] at heq
  cases heq

theorem chunkingFree_letters : Sniffs sniffingCodec ∧ (1 : Int) ≤ 1 ∧
    ChunkingFree sniffingCodec 1 acceptsGzip .empty [] (some 200) [104, 105] := by
  have halike : SniffsAlike sniffingCodec 1 [104, 105] := by
    intro n hn hle _
    have hcases : n = 1 ∨ n = 2 := by
      rw [List.length_cons, List.length_singleton] at hle
      omega
    rcases hcases with rfl | rfl
    · decide +kernel
    · decide +kernel
  exact ⟨sniffs_sniffingCodec, le_refl _,
    (chunkingFree_iff sniffingCodec 1 acceptsGzip .empty [] (some 200) [104, 105] sniffs_sniffingCodec
      (le_refl _)).mpr (.inr (.inr (.inr halike)))⟩

end Chunking

section Vary

def namesAcceptEncoding (value : String) : Bool :=
  (splitSeq value ',').any fun part => equalFold (trimSpace part) "Accept-Encoding"

/-- One of the Vary lines lists `Accept-Encoding`. -/
def CarriesAcceptEncoding (h : Header) : Prop := ∃ value ∈ h.values "Vary", namesAcceptEncoding value = true

instance (h : Header) : Decidable (CarriesAcceptEncoding h) := inferInstanceAs (Decidable (∃ value ∈ _, _))

/-- The Vary lines that were there are gone. -/
def dropsVary : Op → Bool
  | .header .clear => true
  | .header (.del name) => name = varyName
  | .header (.set name _) => name = varyName
  | _ => false

/-- A Vary line that lists `Accept-Encoding` is put there. -/
def putsVary : Op → Bool
  | .header (.add name value) => name = varyName && namesAcceptEncoding value
  | .header (.set name value) => name = varyName && namesAcceptEncoding value
  | _ => false

/-- The lines are never dropped, or such a line is put there after they last were. -/
def VaryKept (ops : List Op) : Prop :=
  (∀ op ∈ ops, dropsVary op = false) ∨
    ∃ start op rest, ops = start ++ op :: rest ∧ putsVary op = true ∧ ∀ o ∈ rest, dropsVary o = false

theorem values_vary_of_ne {name : FieldName} (hname : name ≠ varyName) : name.text ≠ canonicalHeaderKey "Vary" :=
  fun htext => hname (FieldName.eq_of_text htext)

theorem carries_headerOf (h : Header) (op : Op) :
    CarriesAcceptEncoding (headerOf h op) ↔
      (CarriesAcceptEncoding h ∧ dropsVary op = false) ∨ putsVary op = true := by
  unfold CarriesAcceptEncoding
  cases op with
  | header op =>
    cases op with
    | add name value =>
      by_cases hname : name = varyName
      · subst hname
        rw [headerOf, HeaderOp.apply, Header.values_add_self _ (by decide)]
        simp [dropsVary, putsVary, or_and_right, exists_or]
      · rw [headerOf, HeaderOp.apply, Header.values_add_of_ne _ (values_vary_of_ne hname)]
        simp [dropsVary, putsVary, hname]
    | set name value =>
      by_cases hname : name = varyName
      · subst hname
        rw [headerOf, HeaderOp.apply, Header.values_set_self _ (by decide)]
        simp [dropsVary, putsVary]
      · rw [headerOf, HeaderOp.apply, Header.values_set_of_ne _ (values_vary_of_ne hname)]
        simp [dropsVary, putsVary, hname]
    | del name =>
      by_cases hname : name = varyName
      · subst hname
        rw [headerOf, HeaderOp.apply, Header.values_del_self _ (by decide)]
        simp [dropsVary, putsVary]
      · rw [headerOf, HeaderOp.apply, Header.values_del_of_ne _ (values_vary_of_ne hname)]
        simp [dropsVary, putsVary, hname]
    | clear =>
      simp [headerOf, HeaderOp.apply, dropsVary, putsVary, Header.empty, Header.values]
  | writeHeader code => simp [headerOf, dropsVary, putsVary]
  | write b => simp [headerOf, dropsVary, putsVary]

theorem putsVary_cons_iff (op : Op) (ops : List Op) :
    (∃ start o rest, op :: ops = start ++ o :: rest ∧ putsVary o = true ∧ ∀ q ∈ rest, dropsVary q = false) ↔
      (putsVary op = true ∧ ∀ q ∈ ops, dropsVary q = false) ∨
        ∃ start o rest, ops = start ++ o :: rest ∧ putsVary o = true ∧ ∀ q ∈ rest, dropsVary q = false := by
  constructor
  · rintro ⟨start, o, rest, heq, hputs, hrest⟩
    cases start with
    | nil =>
      obtain ⟨rfl, rfl⟩ := List.cons.inj heq
      exact .inl ⟨hputs, hrest⟩
    | cons first start =>
      obtain ⟨-, rfl⟩ := List.cons.inj heq
      exact .inr ⟨start, o, rest, rfl, hputs, hrest⟩
  · rintro (⟨hputs, hrest⟩ | ⟨start, o, rest, rfl, hputs, hrest⟩)
    · exact ⟨[], op, ops, rfl, hputs, hrest⟩
    · exact ⟨op :: start, o, rest, rfl, hputs, hrest⟩

/-- By induction on the operations, for any map to begin with. -/
theorem carries_foldl (h : Header) (ops : List Op) :
    CarriesAcceptEncoding (ops.foldl headerOf h) ↔
      (CarriesAcceptEncoding h ∧ ∀ op ∈ ops, dropsVary op = false) ∨
        ∃ start op rest, ops = start ++ op :: rest ∧ putsVary op = true ∧ ∀ o ∈ rest, dropsVary o = false := by
  induction ops generalizing h with
  | nil => simp
  | cons op ops ih =>
    rw [List.foldl_cons, ih, carries_headerOf, putsVary_cons_iff, List.forall_mem_cons, or_and_right, and_assoc,
      or_assoc]

theorem carries_added (h : Header) : CarriesAcceptEncoding (h.add varyName "Accept-Encoding") := by
  refine ⟨"Accept-Encoding", ?_, by decide⟩
  rw [Header.values_add_self _ (by decide)]
  exact List.mem_append_right _ List.mem_cons_self

/-- The middleware's own line counts as one that was there. -/
theorem carries_iff_varyKept (h : Header) (ops : List Op) :
    CarriesAcceptEncoding (ops.foldl headerOf (h.add varyName "Accept-Encoding")) ↔ VaryKept ops := by
  rw [carries_foldl, VaryKept]
  simp only [carries_added h, true_and]

theorem carries_relabelled (h : Header) : CarriesAcceptEncoding (relabelled h) ↔ CarriesAcceptEncoding h := by
  have hvalues : (relabelled h).values "Vary" = h.values "Vary" := by
    rw [relabelled, Header.values_del_of_ne _ (by decide), Header.values_set_of_ne _ (by decide)]
  rw [CarriesAcceptEncoding, hvalues, CarriesAcceptEncoding]

/-- A response that `Compress` compresses says that it varies. -/
def VariesIfZipped (codec : Codec) (minSize : Int) (r : Request) (h : Header) (ops : List Op) : Prop :=
  gzips codec recorder minSize r ops (fresh h) = true →
    CarriesAcceptEncoding (compress codec recorder minSize r ops (fresh h)).sentHeader

/-- The client accepts gzip and the buffer reaches `minSize` in a response without an encoding and
of a compressible type: the Vary line has to be there then. -/
def VaryInTime (codec : Codec) (minSize : Int) (r : Request) (h : Header) (ops : List Op) : Prop :=
  clientAcceptsGzip (r.header.get "Accept-Encoding") = true → ∀ d ∈ deciding minSize [] ops,
    zips codec (d.1.foldl headerOf (h.add varyName "Accept-Encoding")) d.2 = true → VaryKept d.1

theorem variesIfZipped_iff (codec : Codec) (minSize : Int) (r : Request) (h : Header) (ops : List Op) :
    VariesIfZipped codec minSize r h ops ↔ VaryInTime codec minSize r h ops := by
  unfold VariesIfZipped VaryInTime
  cases hr : clientAcceptsGzip (r.header.get "Accept-Encoding") with
  | false => simp [gzips, hr]
  | true =>
    rw [gzips_eq, hr, Bool.true_and, sentHeader_compress codec minSize r h ops hr, verdict]
    cases hdec : deciding minSize [] ops with
    | none => simp
    | some d =>
      obtain ⟨before, x⟩ := d
      cases hz : zips codec (before.foldl headerOf (h.add varyName "Accept-Encoding")) x with
      | false => simp [hz]
      | true => simp [hz, carries_relabelled, carries_iff_varyKept]

def link : FieldName := ⟨"Link", by decide, by decide⟩

/-- What `httputil.ReverseProxy` does for an upstream that sends 103 and then its answer: it copies
the header, writes the status and clears the map before it begins with the answer. -/
def earlyHints : List Op :=
  [.header (.add link "</style.css>; rel=preload"), .writeHeader 103, .header .clear,
    .header (.add contentType "text/plain"), .writeHeader 200, .write hello]

/-- The answer goes out compressed and without a Vary line. -/
theorem earlyHints_zipped : gzips helloCodec recorder 1 acceptsGzip earlyHints (fresh .empty) = true ∧
    (compress helloCodec recorder 1 acceptsGzip earlyHints (fresh .empty)).sentHeader.values "Content-Encoding" =
      ["gzip"] ∧
    (compress helloCodec recorder 1 acceptsGzip earlyHints (fresh .empty)).sentHeader.values "Vary" = [] ∧
    ¬ VariesIfZipped helloCodec 1 acceptsGzip .empty earlyHints := by
  have hzipped : gzips helloCodec recorder 1 acceptsGzip earlyHints (fresh .empty) = true := by decide +kernel
  have hvary : (compress helloCodec recorder 1 acceptsGzip earlyHints (fresh .empty)).sentHeader.values "Vary" =
      [] := by
    decide +kernel
  refine ⟨hzipped, by decide +kernel, hvary, fun hvaries => ?_⟩
  obtain ⟨value, hvalue, -⟩ := hvaries hzipped
  rw [hvary] at hvalue
  exact absurd hvalue List.not_mem_nil

end Vary

end ApiGateway.CompressDecision
