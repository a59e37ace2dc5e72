import Mathlib.Data.List.Forall2
import Robocol.Broadcast

/-! The simulated camera: what it writes to each client until the connection breaks, and that a
station shows exactly the pictures of which every byte has come. -/
namespace Robocol
namespace CameraServer

open Filter Readers StdText HeaderLines MjpegStream

/-- A connection that takes `room` more bytes before it breaks. -/
structure Sink where
  room : ℕ
  sent : List UInt8 := []

/-- `write_all`. What fits is sent also where it fails. -/
def Sink.writeAll (w : Sink) (bytes : List UInt8) : Bool × Sink :=
  (decide (bytes.length ≤ w.room),⟨w.room-bytes.length,w.sent ++ bytes.take w.room⟩)

/-- Writes in order, up to the first that fails. -/
def Sink.writeEach (w : Sink) : List (List UInt8) → Bool × Sink
  | [] => (true,w)
  | bytes :: rest =>
    let (ok,w) := w.writeAll bytes
    if ok then w.writeEach rest else (false,w)

def BOUNDARY : String := "frame"

def head : List UInt8 :=
  utf8 s!"HTTP/1.0 200 OK\r\nConnection: close\r\nContent-Type: multipart/x-mixed-replace; boundary={BOUNDARY}\r\n\r\n"

def partHead (jpeg : List UInt8) : List UInt8 :=
  utf8 s!"--{BOUNDARY}\r\nContent-Type: image/jpeg\r\nContent-Length: {jpeg.length}\r\n\r\n"

section Server

variable (render : ℕ → List UInt8)

/-- The loop of `serve_stream`. -/
def serveFrames : ℕ → ℕ → Sink → Option Sink
  | 0, _, _ => none
  | fuel+1, n, w =>
    let jpeg := render n
    let (ok,w) := w.writeEach [partHead jpeg,jpeg,CRLF]
    if ok then serveFrames fuel (n+1) w else some w

/-- What is written of a stream to a connection that takes `room` bytes. -/
def serveStream (fuel room : ℕ) : Option Sink :=
  let (ok,w) := Sink.writeAll ⟨room,[]⟩ head
  if ok then serveFrames render fuel 0 w else some w

end Server

section Writes

variable {render : ℕ → List UInt8} {w : Sink}

theorem writeEach_flatten (w : Sink) (parts : List (List UInt8)) :
    w.writeEach parts = w.writeAll parts.flatten := by
  induction parts generalizing w with
  | nil => simp [Sink.writeEach,Sink.writeAll]
  | cons bytes rest ih =>
    rw [Sink.writeEach,Sink.writeAll,List.flatten_cons]
    by_cases hfit : bytes.length ≤ w.room
    · simp only [hfit,decide_true,if_true,ih,Sink.writeAll,List.length_append,Prod.mk.injEq,
        decide_eq_decide,Sink.mk.injEq,Nat.sub_sub,List.append_assoc,true_and,
        List.append_cancel_left_eq]
      refine ⟨by omega,?_⟩
      rw [List.take_append,List.take_of_length_le hfit]
    · have hlt := Nat.lt_of_not_le hfit
      have hover : ¬bytes.length+rest.flatten.length ≤ w.room := by omega
      simp only [hfit,decide_false,Bool.false_eq_true,if_false,Sink.writeAll,List.length_append,hover,
        List.take_append_of_le_length hlt.le,Prod.mk.injEq,Sink.mk.injEq,true_and,and_true]
      omega

def served (jpeg : List UInt8) : List UInt8 := partHead jpeg ++ jpeg ++ CRLF

variable (render) in
/-- `k` pictures of the stream, from the `n`-th on. -/
def servedFrom (n k : ℕ) : List UInt8 := (List.range' n k).flatMap fun i => served (render i)

theorem servedFrom_succ (n k : ℕ) :
    servedFrom render n (k+1) = served (render n) ++ servedFrom render (n+1) k := rfl

theorem served_pos (jpeg : List UInt8) : 0 < (served jpeg).length := by
  simp only [served,List.length_append,CRLF,List.length_cons]
  omega

variable (render) in
/-- The loop ends with the connection, which has taken what it could. By induction on what it takes. -/
theorem serveFrames_sends (n : ℕ) (w : Sink) : ∃ k w',
    (∀ fuel > w.room, serveFrames render fuel n w = some w') ∧
    w'.sent = w.sent ++ (servedFrom render n k).take w.room ∧ w.room < (servedFrom render n k).length := by
  induction hroom : w.room using Nat.strong_induction_on generalizing n w with
  | _ room ih =>
    have hpos := served_pos (render n)
    have hparts : [partHead (render n),render n,CRLF].flatten = served (render n) := by simp [served]
    by_cases hfit : (served (render n)).length ≤ room
    · obtain ⟨k,w',hrun,hsent,hlt⟩ := ih (room-(served (render n)).length) (by omega) (n+1)
        ⟨room-(served (render n)).length,w.sent ++ (served (render n)).take room⟩ rfl
      refine ⟨k+1,w',fun fuel hfuel => ?_,?_,?_⟩
      · cases fuel with
        | zero => omega
        | succ fuel =>
          simpa only [serveFrames,writeEach_flatten,hparts,Sink.writeAll,hroom,hfit,decide_true,if_true] using
            hrun fuel (by omega)
      · rw [hsent,servedFrom_succ,List.take_append,List.append_assoc]
      · rw [servedFrom_succ,List.length_append]
        omega
    · refine ⟨1,⟨room-(served (render n)).length,w.sent ++ (served (render n)).take room⟩,fun fuel hfuel => ?_,
        by simp [servedFrom],by simpa [servedFrom] using Nat.lt_of_not_le hfit⟩
      cases fuel with
      | zero => omega
      | succ fuel =>
        simp only [serveFrames,writeEach_flatten,hparts,Sink.writeAll,hroom,hfit,decide_false,
          Bool.false_eq_true,if_false]

variable (render) in
theorem serveStream_sends (room : ℕ) : ∃ k w, (∀ᶠ fuel in atTop, serveStream render fuel room = some w) ∧
    w.sent = (head ++ servedFrom render 0 k).take room ∧ room < (head ++ servedFrom render 0 k).length := by
  by_cases hfit : head.length ≤ room
  · obtain ⟨k,w,hrun,hsent,hlt⟩ := serveFrames_sends render 0 ⟨room-head.length,head⟩
    refine ⟨k,w,?_,?_,?_⟩
    · filter_upwards [eventually_gt_atTop (room-head.length)] with fuel hfuel
      simpa only [serveStream,Sink.writeAll,hfit,decide_true,if_true,List.nil_append,
        List.take_of_length_le hfit] using hrun fuel hfuel
    · rw [hsent,List.take_append,List.take_of_length_le hfit]
    · change room-head.length < _ at hlt
      rw [List.length_append]
      omega
  · refine ⟨0,⟨room-head.length,head.take room⟩,.of_forall fun fuel => ?_,?_,?_⟩
    · simp only [serveStream,Sink.writeAll,hfit,decide_false,Bool.false_eq_true,if_false,List.nil_append]
    · rw [List.take_append_of_le_length (Nat.lt_of_not_le hfit).le]
    · simpa [servedFrom] using Nat.lt_of_not_le hfit

end Writes
section Streams

variable {render : ℕ → List UInt8} {jpeg : List UInt8} {n : ℕ}

def boundaryFrame : Boundary := ⟨BOUNDARY,by decide,by decide,by decide⟩

/-- A picture that does not hold the delimiter of the stream, and is no longer than a station takes. -/
structure Carried (jpeg : List UInt8) : Prop where
  whole : ¬boundaryFrame.delim <:+: jpeg
  fits : jpeg.length+2 ≤ MAX_FRAME_BYTES

def tokenFrame : Token := ⟨BOUNDARY.toList,by decide,List.all_eq_true.1 (by decide)⟩

def frameHead : Response (mixedReplace tokenFrame) where
  status := oneFrameHead.status
  before := [⟨utf8 "Connection: close",by decide,by decide,by decide,by decide⟩]
  contentType := ⟨utf8 "Content-Type: multipart/x-mixed-replace; boundary=frame",by decide,by decide,
    by decide,by decide⟩
  after := []
  ok := oneFrameHead.ok
  is_line := by decide +kernel
  others := others_nil

theorem head_eq : head = frameHead.bytes := by decide +kernel

theorem toDigits_range {c : Char} (hc : c ∈ Nat.toDigits 10 n) : 48 ≤ c.toNat ∧ c.toNat ≤ 57 :=
  isDigit_iff.mp (Nat.isDigit_of_mem_toDigits (by decide) (by decide) hc)

theorem utf8_repr (n : ℕ) : utf8 n.repr = (Nat.toDigits 10 n).map fun c => UInt8.ofNat c.toNat := by
  have hbyte {c : Char} (hc : c ∈ Nat.toDigits 10 n) : (UInt8.ofNat c.toNat).toNat = c.toNat := by
    have hrange := toDigits_range hc
    rw [UInt8.toNat_ofNat']
    omega
  have hascii : ∀ b ∈ (Nat.toDigits 10 n).map fun c => UInt8.ofNat c.toNat, b.toNat < 128 := by
    intro b hb
    obtain ⟨c,hc,rfl⟩ := List.mem_map.1 hb
    have hrange := toDigits_range hc
    rw [hbyte hc]
    omega
  have hback : ((Nat.toDigits 10 n).map fun c => UInt8.ofNat c.toNat).map (fun b => Char.ofNat b.toNat) =
      Nat.toDigits 10 n := by
    rw [List.map_map]
    refine (List.map_congr_left fun c hc => ?_).trans (List.map_id _)
    rw [Function.comp_apply,hbyte hc,Char.ofNat_toNat,id]
  rw [← utf8_ofBytes hascii,hback,Nat.repr_eq_ofList_toDigits]

theorem mem_utf8_repr {b : UInt8} (hb : b ∈ utf8 n.repr) : 48 ≤ b.toNat := by
  rw [utf8_repr] at hb
  obtain ⟨c,hc,rfl⟩ := List.mem_map.1 hb
  have hrange := toDigits_range hc
  rw [UInt8.toNat_ofNat']
  omega

def typeLine : HeaderLine := ⟨utf8 "Content-Type: image/jpeg",by decide,by decide,by decide,by decide⟩

def lengthLine (jpeg : List UInt8) (h : jpeg.length+2 ≤ MAX_FRAME_BYTES) : HeaderLine where
  bytes := utf8 "Content-Length: " ++ utf8 jpeg.length.repr
  ne_nil := by
    have hname : utf8 "Content-Length: " ≠ [] := by decide
    simp [hname]
  no_cr := by
    rw [List.mem_append,not_or]
    exact ⟨by decide,fun hb => absurd (mem_utf8_repr hb) (by decide)⟩
  no_lf := by
    rw [List.mem_append,not_or]
    exact ⟨by decide,fun hb => absurd (mem_utf8_repr hb) (by decide)⟩
  short := by
    have hdigits : (Nat.toDigits 10 jpeg.length).length ≤ 8 := by
      rw [Nat.length_toDigits_le_iff (by decide) (by decide)]
      exact Nat.lt_of_lt_of_le (Nat.lt_of_lt_of_le (by omega) h) (by decide)
    have hname : (utf8 "Content-Length: ").length = 16 := by decide
    rw [List.length_append,hname,utf8_repr,List.length_map]
    omega

/-- No delimiter begins before the one behind the picture: it would hold a line end or lie in the picture. -/
theorem Carried.first (h : Carried jpeg) : FirstAt boundaryFrame.delim
    (jpeg ++ CRLF ++ boundaryFrame.delim) (jpeg.length+2) := by
  have hcr : CR ∉ boundaryFrame.delim := by decide
  have hlf : LF ∉ boundaryFrame.delim := by decide
  have hmem {i j : ℕ} {b : UInt8} (hocc : boundaryFrame.delim <+: (jpeg ++ CRLF ++ boundaryFrame.delim).drop j)
      (hj : j ≤ i) (hi : i < j+boundaryFrame.delim.length)
      (hb : (jpeg ++ CRLF ++ boundaryFrame.delim)[i]? = some b) : b ∈ boundaryFrame.delim := by
    have hget := List.prefix_iff_getElem?.1 hocc (i-j) (by omega)
    rw [List.getElem?_drop,Nat.add_sub_cancel' hj,hb] at hget
    exact Option.some.inj hget ▸ List.getElem_mem _
  refine ⟨?_,fun j hj hocc => ?_⟩
  · exact ⟨[],by rw [List.append_nil,List.drop_left' (by simp [CRLF])]⟩
  · have hlen : boundaryFrame.delim.length = 7 := by decide
    rcases Nat.lt_or_ge jpeg.length (j+boundaryFrame.delim.length) with hover|hin
    · rcases Nat.lt_or_ge jpeg.length j with hj'|hj'
      · obtain rfl : j = jpeg.length+1 := by omega
        exact hlf (hmem hocc le_rfl (by omega) (by simp [CRLF]))
      · exact hcr (hmem hocc hj' hover (by simp [CRLF]))
    · rw [List.append_assoc,List.drop_append_of_le_length (by omega)] at hocc
      have hpre := List.prefix_of_prefix_length_le hocc (List.prefix_append _ _)
        (by rw [List.length_drop]; omega)
      exact h.whole (hpre.isInfix.trans (List.drop_suffix _ _).isInfix)

def picturePart (jpeg : List UInt8) (h : Carried jpeg) : Part boundaryFrame.delim where
  headers := [typeLine,lengthLine jpeg h.fits]
  frame := jpeg
  first := h.first
  fits := h.fits

theorem partHead_eq (h : Carried jpeg) :
    partHead jpeg = boundaryFrame.delim ++ CRLF ++ headerBlock (picturePart jpeg h).headers := by
  have happend (s t : String) : utf8 (s ++ t) = utf8 s ++ utf8 t := by
    simp only [utf8,String.toByteArray_append,ByteArray.data_append,Array.toList_append]
  have hbefore : utf8 "--" ++ utf8 BOUNDARY ++ utf8 "\r\nContent-Type: image/jpeg\r\nContent-Length: " =
      boundaryFrame.delim ++ CRLF ++ (typeLine.bytes ++ CRLF ++ utf8 "Content-Length: ") := by decide
  have hafter : utf8 "\r\n\r\n" = CRLF ++ CRLF := by decide
  have hparts : partHead jpeg = utf8 "--" ++ utf8 BOUNDARY ++
      utf8 "\r\nContent-Type: image/jpeg\r\nContent-Length: " ++ utf8 jpeg.length.repr ++ utf8 "\r\n\r\n" := by
    rw [← happend,← happend,← happend,← happend]
    rfl
  rw [hparts,hbefore,hafter]
  simp [picturePart,lengthLine,headerBlock]

end Streams

section Broadcasts

variable {render : ℕ → List UInt8}

/-- `k` pictures as parts of a broadcast, from the `n`-th on. -/
def picturesFrom (h : ∀ n, Carried (render n)) (n k : ℕ) : List (Part boundaryFrame.delim) :=
  (List.range' n k).map fun i => picturePart (render i) (h i)

theorem picturesFrom_succ (h : ∀ n, Carried (render n)) (n k : ℕ) :
    picturesFrom h n (k+1) = picturePart (render n) (h n) :: picturesFrom h (n+1) k := rfl

/-- The first `k` pictures of the stream as a broadcast. -/
def broadcast (h : ∀ n, Carried (render n)) (k : ℕ) : Broadcast where
  contentType := mixedReplace tokenFrame
  head := frameHead
  boundary := boundaryFrame
  parts := picturesFrom h 0 k
  transfer := .plain
  plain := mixedReplace_plain tokenFrame
  named := rfl
  announced := show saysChunked frameHead.headers = false by decide +kernel

theorem broadcast_frames (h : ∀ n, Carried (render n)) (k : ℕ) :
    (broadcast h k).frames = (List.range k).map render := by
  rw [Broadcast.frames,List.range_eq_range']
  exact List.map_map ..

theorem served_eq (h : ∀ n, Carried (render n)) (n : ℕ) : served (render n) =
    boundaryFrame.delim ++ CRLF ++ (headerBlock (picturePart (render n) (h n)).headers ++
      (render n ++ CRLF)) := by
  rw [served,partHead_eq (h n)]
  simp only [List.append_assoc]

theorem length_served (h : ∀ n, Carried (render n)) (n : ℕ) :
    (served (render n)).length = (picturePart (render n) (h n)).reach+2 := by
  rw [served_eq h]
  simp only [List.length_append,Part.reach,picturePart,CRLF,List.length_cons,List.length_nil]
  omega

theorem servedFrom_grows (h : ∀ n, Carried (render n)) (n k : ℕ) :
    servedFrom render n k ++ boundaryFrame.delim <+: multipart boundaryFrame.delim (picturesFrom h n k) := by
  induction k generalizing n with
  | zero => exact ⟨CRLF,by simp [servedFrom,picturesFrom,multipart,afterLine]⟩
  | succ k ih =>
    have hsplit : multipart boundaryFrame.delim (picturesFrom h n (k+1)) = served (render n) ++
        (boundaryFrame.delim ++ (lineEnd (picturesFrom h (n+1) k) ++ CRLF ++
          afterLine (picturesFrom h (n+1) k))) := by
      rw [served_eq h,picturesFrom_succ,multipart,afterLine]
      simp [picturePart]
    rw [hsplit,servedFrom_succ,List.append_assoc,List.prefix_append_right_inj]
    cases k with
    | zero => exact List.prefix_append _ _
    | succ k =>
      have hrest := ih (n+1)
      rw [multipart,List.append_assoc] at hrest
      exact hrest

theorem lt_arrived_iff (h : ∀ n, Carried (render n)) (n k m x : ℕ) :
    m < arrived x (picturesFrom h n k) ↔
      m < k ∧ (servedFrom render n (m+1)).length ≤ x+2 := by
  induction k generalizing n m x with
  | zero => simp [picturesFrom,arrived]
  | succ k ih =>
    have hserved := length_served h n
    have hreach := reach_pos (picturePart (render n) (h n))
    rw [picturesFrom_succ,arrived,servedFrom_succ,List.length_append]
    generalize (picturePart (render n) (h n)).reach = reach at hserved hreach
    cases m with
    | zero =>
      simp only [servedFrom,List.range'_zero,List.flatMap_nil,List.length_nil]
      split <;> omega
    | succ m =>
      by_cases hx : x < reach
      · rw [if_pos hx]
        omega
      · have hnext := length_served h (n+1)
        have hpos := reach_pos (picturePart (render (n+1)) (h (n+1)))
        rw [if_neg hx,Nat.add_lt_add_iff_right,ih,servedFrom_succ,List.length_append]
        cases k with
        | zero => omega
        | succ k =>
          have hline : (lineEnd (picturesFrom h (n+1) (k+1))).length = 0 := rfl
          rw [hline]
          omega

theorem servedFrom_le (n : ℕ) {k l : ℕ} (hkl : k ≤ l) : servedFrom render n k <+: servedFrom render n l := by
  obtain ⟨j,rfl⟩ := Nat.exists_eq_add_of_le hkl
  rw [servedFrom,servedFrom,← List.range'_append_1,List.flatMap_append]
  exact List.prefix_append _ _

variable (render) in
theorem le_length_servedFrom (n k : ℕ) : k ≤ (servedFrom render n k).length := by
  induction k generalizing n with
  | zero => exact Nat.zero_le _
  | succ k ih =>
    have hpos := served_pos (render n)
    have hrest := ih (n+1)
    rw [servedFrom_succ,List.length_append]
    omega

/-- What comes of what was served is the front of a broadcast of as many pictures as it has bytes. -/
theorem served_broadcast (h : ∀ n, Carried (render n)) {room : ℕ} {w : Sink} {T : List UInt8}
    (hserve : ∀ᶠ fuel in atTop, serveStream render fuel room = some w) (hT : T <+: w.sent) :
    T <+: (broadcast h T.length).bytes := by
  obtain ⟨k,w',hrun,hsent,-⟩ := serveStream_sends render room
  obtain ⟨fuel,hf,hg⟩ := (hserve.and hrun).exists
  obtain rfl : w = w' := Option.some.inj (hf.symm.trans hg)
  have hwhole : head ++ servedFrom render 0 T.length <+: (broadcast h T.length).bytes := by
    rw [head_eq]
    exact (List.prefix_append_right_inj _).2 ((List.prefix_append _ _).trans (servedFrom_grows h 0 T.length))
  refine .trans ?_ hwhole
  have hfront : T <+: head ++ servedFrom render 0 k := hT.trans (hsent ▸ List.take_prefix _ _)
  have hlen : T.length ≤ (head ++ servedFrom render 0 T.length).length := by
    have hle := le_length_servedFrom render 0 T.length
    rw [List.length_append]
    omega
  rcases Nat.le_total k T.length with hk|hk
  · exact hfront.trans ((List.prefix_append_right_inj _).2 (servedFrom_le 0 hk))
  · exact List.prefix_of_prefix_length_le hfront ((List.prefix_append_right_inj _).2 (servedFrom_le 0 hk)) hlen

variable (render) in
/-- The stream through the delimiter behind the `m`-th picture. -/
def through (m : ℕ) : List UInt8 := head ++ servedFrom render 0 (m+1) ++ boundaryFrame.delim

theorem lt_shown_iff (h : ∀ n, Carried (render n)) (T : List UInt8) (m : ℕ) :
    m < shown (T.length-frameHead.bytes.length) (broadcast h T.length).parts ↔
      (through render m).length ≤ T.length := by
  have hle := le_length_servedFrom render 0 (m+1)
  have hserved := length_served h 0
  have hpos := reach_pos (picturePart (render 0) (h 0))
  have hdelim : boundaryFrame.delim.length = 7 := by decide
  rw [shown,broadcast,lt_arrived_iff,through,head_eq]
  simp only [List.length_append,servedFrom_succ] at hle ⊢
  omega

end Broadcasts

section Connections

variable {α ρ : Type} {D : ρ → List UInt8 → Prop} {cfg : StreamConfig} {a : Attempt α ρ}
  {render : ℕ → List UInt8}

/-- What an attempt finds: nobody, or the simulated camera, of whose stream some comes. -/
inductive Meets (D : ρ → List UInt8 → Prop) (cfg : StreamConfig) (render : ℕ → List UInt8) (a : Attempt α ρ) :
    Option (List UInt8) → Prop
  | nobody (e : IoError) (hopen : openStream cfg a = .error e) : Meets D cfg render a none
  | camera (room : ℕ) (w : Sink) (T : List UInt8) (stream : ρ) (hopen : openStream cfg a = .ok stream)
      (hserve : ∀ᶠ fuel in atTop, serveStream render fuel room = some w) (hT : T <+: w.sent)
      (hstream : D stream T) : Meets D cfg render a (some T)

/-- The first pictures are shown, each once the delimiter behind it has come. -/
def ShowsPictures (render : ℕ → List UInt8) (unstopped : Prop) : Option (List UInt8) → List (List UInt8) → Prop
  | none, jpegs => jpegs = []
  | some T, jpegs => jpegs = (List.range jpegs.length).map render ∧
      ∀ m, (m < jpegs.length → (through render m).length ≤ T.length) ∧
        (unstopped → (through render m).length ≤ T.length → m < jpegs.length)

theorem Meets.finds (h : ∀ n, Carried (render n)) {received : Option (List UInt8)}
    (hmeets : Meets D cfg render a received) :
    Finds D cfg a (received.map fun T => (broadcast h T.length,T)) := by
  cases hmeets with
  | nobody e hopen => exact .nobody e hopen
  | camera room w T stream hopen hserve hT hstream =>
    exact .camera _ T stream hopen hstream (served_broadcast h hserve hT)

theorem shown_pictures (h : ∀ n, Carried (render n)) {unstopped : Prop} {received : Option (List UInt8)}
    {jpegs : List (List UInt8)} (hshown : Shown unstopped (received.map fun T => (broadcast h T.length,T)) jpegs) :
    ShowsPictures render unstopped received jpegs := by
  cases received with
  | none => exact hshown
  | some T =>
    obtain ⟨n,hmost,hjpegs,hleast⟩ := hshown
    have hle : n ≤ T.length := by
      refine hmost.trans ((Broadcast.most_le _ T).trans_eq ?_)
      simp [broadcast,picturesFrom]
    have hlen : jpegs.length = n := by
      rw [hjpegs,broadcast_frames,List.length_take,List.length_map,List.length_range]
      exact Nat.min_eq_left hle
    refine ⟨?_,fun m => ⟨fun hm => ?_,fun hgo hm => ?_⟩⟩
    · rw [hlen,hjpegs,broadcast_frames,← List.map_take,List.take_range,Nat.min_eq_left hle]
    · exact (lt_shown_iff h T m).1 (Nat.lt_of_lt_of_le (hlen ▸ hm) hmost)
    · exact hlen ▸ Nat.lt_of_lt_of_le ((lt_shown_iff h T m).2 hm) (hleast hgo).1

/-- From one program of the repository to the other: over all the connections of a run, each broken
anywhere or to nobody, a station shows the simulated camera's pictures in order and from the first on,
just those of which all has come and the delimiter behind them. -/
theorem simulated_camera_shown [Readers.Read ρ] (hD : Readers.Delivers D) (cfg : StreamConfig) (h : ∀ n, Carried (render n))
    (attempts : List (Attempt α ρ)) (received : List (Option (List UInt8)))
    (hmeets : List.Forall₂ (Meets D cfg render) attempts received) (stop : ℕ → Bool) :
    ∃ p screens, (∀ᶠ fuel in atTop, runStream fuel cfg attempts { stop := stop } = some p) ∧
      List.Forall₂ (ShowsPictures render (∀ i, stop i = false)) (received.take screens.length) screens ∧
      p.shared.sent = screens.flatMap (session cfg.source) ∧
      ((∀ i, stop i = false) → p.isReturned = false ∧ screens.length = received.length) := by
  have hfinds : List.Forall₂ (Finds D cfg) attempts
      (received.map (Option.map fun T => (broadcast h T.length,T))) :=
    List.forall₂_map_right_iff.2 (hmeets.imp fun _ _ hm => hm.finds h)
  obtain ⟨p,screens,hrun,hshown,hsent,hlen⟩ := runStream_shows hD hfinds (s := { stop := stop }) rfl
  rw [← List.map_take,List.forall₂_map_left_iff] at hshown
  rw [List.length_map] at hlen
  exact ⟨p,screens,hrun,hshown.imp fun _ _ hs => shown_pictures h hs,hsent,hlen⟩

/-- The connection breaks after three hundred bytes, and then nobody is there. -/
theorem still_camera_shown : ∃ w p screens, (∀ᶠ fuel in atTop, serveStream (fun _ => [255]) fuel 300 = some w) ∧
    (∀ᶠ fuel in atTop, runStream fuel cameraConfig [{ oneFrame with connect := fun _ => .ok ⟨[.ok w.sent]⟩ },
      { oneFrame with lookup := fun _ _ => .ok [] }] { stop := fun _ => false } = some p) ∧
    List.Forall₂ (ShowsPictures (fun _ => [255]) (∀ _ : ℕ, false = false))
      ([some w.sent,none].take screens.length) screens ∧
    p.shared.sent = screens.flatMap (session cameraConfig.source) ∧
    ((∀ _ : ℕ, false = false) → p.isReturned = false ∧ screens.length = 2) := by
  obtain ⟨k,w,hserve,hsent,hlt⟩ := serveStream_sends (fun _ => [255]) 300
  have hne : w.sent ≠ [] := by
    rw [← List.length_pos_iff,hsent,List.length_take]
    omega
  obtain ⟨p,screens,hrest⟩ := simulated_camera_shown Script.delivers cameraConfig
    (fun _ => ⟨by decide,by decide⟩)
    [{ oneFrame with connect := fun _ => .ok ⟨[.ok w.sent]⟩ },{ oneFrame with lookup := fun _ _ => .ok [] }]
    [some w.sent,none]
    (.cons (.camera 300 w _ _ rfl hserve List.prefix_rfl ⟨[w.sent],rfl,by simpa using hne,List.flatten_singleton⟩)
      (.cons (.nobody _ rfl) .nil)) (fun _ => false)
  exact ⟨w,p,screens,hserve,hrest⟩

end Connections

end CameraServer
end Robocol
