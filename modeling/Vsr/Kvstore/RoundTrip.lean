import Vsr.Kvstore.Frame

/-!
# Frames read back

Decoding what a frame is encoded as yields the frame, if its numbers fit their types
and its keys and values are words.
-/

set_option autoImplicit false

namespace Vsr.Kvstore

open Journal (Text pushNumber pushNumber_plain pushNumber_ne_nil parseNumber_pushNumber isWhitespace words
  wordsFrom wordsFrom_append)
open Cursor (Reads read_bind_ok)

/-! ## The words of an encoding -/

/-- A word: text without whitespace. -/
def Plain (text : Text) : Prop := ∀ c ∈ text, isWhitespace c = false

instance (text : Text) : Decidable (Plain text) := List.decidableBAll _ text

theorem wordsFrom_blank (word text rest : Text) :
    wordsFrom word (text ++ ' ' :: rest) = wordsFrom word text ++ words rest := by
  induction text generalizing word with
  | nil =>
      have blank : isWhitespace ' ' = true := by decide
      rw [List.nil_append, wordsFrom, wordsFrom, if_pos blank]
      split <;> rfl
  | cons c text ih =>
      rw [List.cons_append, wordsFrom, wordsFrom, ih, ih]
      split
      · split <;> rfl
      · rfl

@[simp] theorem words_spaced (texts : List Text) : words (spaced texts) = texts.flatMap words := by
  induction texts with
  | nil => rfl
  | cons text rest ih =>
      cases rest with
      | nil => simp [spaced]
      | cons next rest =>
          rw [spaced, words, wordsFrom_blank, ih, List.flatMap_cons]
          · rfl
          · simp

theorem words_plain {text : Text} (nonempty : text ≠ []) (plain : Plain text) : words text = [text] := by
  have all := wordsFrom_append plain [] []
  rw [List.append_nil, List.nil_append] at all
  rw [words, all, wordsFrom, if_neg (by simpa using nonempty)]

@[simp] theorem words_pushNumber (n : Nat) : words (pushNumber n) = [pushNumber n] :=
  words_plain (pushNumber_ne_nil n) (pushNumber_plain n).2.2

@[simp] theorem words_numbers (fields : List Nat) : (numbers fields).flatMap words = numbers fields := by
  induction fields with
  | nil => rfl
  | cons n rest ih =>
      show words (pushNumber n) ++ (numbers rest).flatMap words = _
      rw [ih, words_pushNumber]
      rfl

/-! ## Numbers and lists -/

/-- A number of 64 bits. -/
def Small (n : Nat) : Prop := n < 2 ^ 64

theorem parse_pushNumber {n : Nat} (small : Small n) : parse (pushNumber n) = some n := by
  have inside : decide (n < 2 ^ 64) = true := decide_eq_true small
  unfold parse
  rw [parseNumber_pushNumber, Option.filter_some, if_pos inside]

theorem reads_word (text : Text) : Reads word [text] text := fun _ => rfl

theorem reads_num {n : Nat} (small : Small n) : Reads num [pushNumber n] n := by
  intro rest
  unfold num
  rw [read_bind_ok (reads_word (pushNumber n) rest), parse_pushNumber small]
  rfl

theorem reads_numOr {n : Nat} (small : Small n) (err : String) : Reads (numOr err) [pushNumber n] n := by
  intro rest
  unfold numOr
  rw [read_bind_ok (reads_word (pushNumber n) rest), parse_pushNumber small]
  rfl

theorem reads_counted {α : Type} {item : Cursor Text α} {spell : α → List Text} {as : List α}
    (small : Small as.length) (one : ∀ a ∈ as, Reads item (spell a) a) :
    Reads (counted item) (pushNumber as.length :: as.flatMap spell) as := by
  have items := Reads.times one
  refine (reads_num small).bind ?_
  rw [withCapacity_reserved]
  exact items

/-! ## What fits -/

def Op.Fits : Op → Prop
  | .put key value => (key ≠ [] ∧ Plain key) ∧ value ≠ [] ∧ Plain value

def EntryFits : LogEntry Op → Prop
  | .register clientId => Small clientId
  | .request clientId session requestNumber answered op =>
      (Small clientId ∧ Small session ∧ Small requestNumber ∧ Small answered) ∧ op.Fits

def ResultFits (result : Option Text) : Prop := ∀ value, result = some value → Plain value

structure ClientFits (record : ClientRecord (Option Text)) : Prop where
  clientId : Small record.clientId
  session : Small record.session
  requestNumber : Small record.requestNumber
  opNumber : Small record.opNumber
  count : Small record.replies.length
  replies : ∀ result ∈ record.replies, ResultFits result

structure ChunkFits (chunk : StoreChunk) : Prop where
  clientCount : Small chunk.clients.length
  clients : ∀ record ∈ chunk.clients, ClientFits record
  pairCount : Small chunk.pairs.length
  pairs : ∀ pair ∈ chunk.pairs, (pair.1 ≠ [] ∧ Plain pair.1) ∧ pair.2 ≠ [] ∧ Plain pair.2

structure SegmentFits (segment : LogSegment Op) : Prop where
  start : Small segment.start
  count : Small segment.entries.length
  entries : ∀ entry ∈ segment.entries, EntryFits entry

def MessageFits : Message Op Text StoreChunk → Prop
  | .register clientId => Small clientId
  | .request clientId session requestNumber answered op =>
      (Small clientId ∧ Small session ∧ Small requestNumber ∧ Small answered) ∧ op.Fits
  | .query clientId queryNumber query =>
      (Small clientId ∧ Small queryNumber) ∧ query ≠ [] ∧ Plain query
  | .confirmView viewNumber round => Small viewNumber ∧ Small round
  | .confirmViewOk viewNumber round replicaId => Small viewNumber ∧ Small round ∧ Small replicaId
  | .prepare viewNumber opNumber entry commitNumber =>
      (Small viewNumber ∧ Small opNumber ∧ Small commitNumber) ∧ EntryFits entry
  | .prepareOk viewNumber opNumber replicaId => Small viewNumber ∧ Small opNumber ∧ Small replicaId
  | .commit viewNumber commitNumber => Small viewNumber ∧ Small commitNumber
  | .getState replicaId viewNumber opNumber => Small replicaId ∧ Small viewNumber ∧ Small opNumber
  | .newState replicaId viewNumber segment commitNumber =>
      (Small replicaId ∧ Small viewNumber ∧ Small commitNumber) ∧ SegmentFits segment
  | .getChunk replicaId opNumber index => Small replicaId ∧ Small opNumber ∧ Small index
  | .newChunk replicaId opNumber index chunk _ =>
      (Small replicaId ∧ Small opNumber ∧ Small index) ∧ ChunkFits chunk
  | .startViewChange viewNumber replicaId => Small viewNumber ∧ Small replicaId
  | .doViewChange viewNumber replicaId lastNormalView segment commitNumber =>
      (Small viewNumber ∧ Small replicaId ∧ Small lastNormalView ∧ Small commitNumber) ∧
        SegmentFits segment
  | .startView viewNumber segment commitNumber =>
      (Small viewNumber ∧ Small commitNumber) ∧ SegmentFits segment
  | .recovery replicaId nonce viewNumber => Small replicaId ∧ Small nonce ∧ Small viewNumber
  | .recoveryResponse viewNumber nonce replicaId state =>
      (Small viewNumber ∧ Small nonce ∧ Small replicaId) ∧
        ∀ told, state = some told → Small told.commitNumber ∧ SegmentFits told.segment

def ReplyFits : Reply (Option Text) → Prop
  | .registered viewNumber clientId session => Small viewNumber ∧ Small clientId ∧ Small session
  | .executed viewNumber clientId session requestNumber result =>
      (Small viewNumber ∧ Small clientId ∧ Small session ∧ Small requestNumber) ∧ ResultFits result
  | .evicted viewNumber clientId session => Small viewNumber ∧ Small clientId ∧ Small session
  | .queried viewNumber clientId queryNumber result =>
      (Small viewNumber ∧ Small clientId ∧ Small queryNumber) ∧ ResultFits result

/-- The numbers of a frame fit their types, its keys, values and queries are words,
and the results it holds have no whitespace. -/
def Frame.Fits : Frame → Prop
  | .message sent => MessageFits sent
  | .reply told => ReplyFits told

/-! ## The parts -/

theorem words_writeOp {op : Op} (fits : op.Fits) : ∃ key value, op = .put key value ∧
    words (writeOp op) = ["PUT".toList, key, value] := by
  cases op with
  | put key value =>
      obtain ⟨⟨someKey, plainKey⟩, someValue, plainValue⟩ := fits
      refine ⟨key, value, rfl, ?_⟩
      have kind : words "PUT".toList = ["PUT".toList] := by decide
      rw [writeOp, words_spaced]
      simp only [List.flatMap_cons, List.flatMap_nil, kind, words_plain someKey plainKey,
        words_plain someValue plainValue]
      rfl

theorem reads_op {op : Op} (fits : op.Fits) : Reads Kvstore.op (words (writeOp op)) op := by
  obtain ⟨key, value, rfl, isWords⟩ := words_writeOp fits
  rw [isWords]
  exact (reads_word _).bind ((reads_word key).bind ((reads_word value).bind (.pure _)))

theorem reads_entry {entry : LogEntry Op} (fits : EntryFits entry) :
    Reads Kvstore.entry (words (writeEntry entry)) entry := by
  cases entry with
  | register clientId =>
      have kind : words "REG".toList = ["REG".toList] := by decide
      have isWords : words (writeEntry (.register clientId)) = ["REG".toList, pushNumber clientId] := by
        rw [writeEntry, words_spaced]
        simp only [List.flatMap_cons, List.flatMap_nil, kind, words_pushNumber]
        rfl
      rw [isWords]
      exact (reads_word _).bind ((reads_num fits).bind (.pure _))
  | request clientId session requestNumber answered op =>
      obtain ⟨⟨client, inSession, request, known⟩, fits⟩ := fits
      have kind : words "REQ".toList = ["REQ".toList] := by decide
      have isWords : words (writeEntry (.request clientId session requestNumber answered op)) =
          "REQ".toList :: numbers [clientId, session, requestNumber, answered] ++
            (words (writeOp op) ++ []) := by
        rw [writeEntry, words_spaced, List.flatMap_append, List.flatMap_cons, kind, words_numbers]
        rfl
      rw [isWords]
      exact (reads_word _).bind ((reads_num client).bind ((reads_num inSession).bind
        ((reads_num request).bind ((reads_num known).bind ((reads_op fits).bind (.pure _))))))

theorem reads_result {result : Option Text} (fits : ResultFits result) :
    Reads Kvstore.result (words (encodeResult result)) result := by
  cases result with
  | none => exact fun _ => rfl
  | some value =>
      have plain : Plain ('+' :: value) := by
        intro c mem
        rcases List.mem_cons.mp mem with rfl | mem
        · decide
        · exact fits value rfl c mem
      rw [encodeResult, words_plain (List.cons_ne_nil _ _) plain]
      exact fun _ => rfl

theorem reads_client {record : ClientRecord (Option Text)} (fits : ClientFits record) :
    Reads (client record.clientId) (words (encodeClient record)) record := by
  have isWords : words (encodeClient record) =
      numbers [record.session, record.requestNumber, record.opNumber] ++
        (pushNumber record.replies.length ::
          record.replies.flatMap (fun result => words (encodeResult result)) ++ []) := by
    rw [encodeClient, words_spaced, List.flatMap_append, words_numbers, List.flatMap_map,
      List.append_nil]
    rfl
  have replies := reads_counted fits.count fun result mem => reads_result (fits.replies result mem)
  rw [isWords]
  exact (reads_num fits.session).bind ((reads_num fits.requestNumber).bind
    ((reads_num fits.opNumber).bind (replies.bind (.pure _))))

theorem reads_chunk {chunk : StoreChunk} (fits : ChunkFits chunk) :
    Reads Kvstore.chunk (words (encodeChunk chunk)) chunk := by
  have isWords : words (encodeChunk chunk) =
      (pushNumber chunk.clients.length ::
        chunk.clients.flatMap fun record => [pushNumber record.clientId] ++ words (encodeClient record)) ++
      ((pushNumber chunk.pairs.length :: chunk.pairs.flatMap fun pair => [pair.1, pair.2]) ++ []) := by
    have record : ∀ record : ClientRecord (Option Text),
        words (spaced [pushNumber record.clientId, encodeClient record]) =
          [pushNumber record.clientId] ++ words (encodeClient record) := by
      intro record
      rw [words_spaced]
      simp
    have pairs : chunk.pairs.flatMap (fun pair => words (spaced [pair.1, pair.2])) =
        chunk.pairs.flatMap fun pair => [pair.1, pair.2] := by
      refine List.flatMap_congr fun pair mem => ?_
      obtain ⟨⟨someKey, plainKey⟩, someValue, plainValue⟩ := fits.pairs pair mem
      rw [words_spaced]
      simp [words_plain someKey plainKey, words_plain someValue plainValue]
    rw [encodeChunk, words_spaced]
    simp only [List.flatMap_append, List.flatMap_cons, words_pushNumber, List.flatMap_map, record,
      pairs]
    simp
  have clients := reads_counted fits.clientCount fun record mem =>
    (reads_num (fits.clients record mem).clientId).bind (reads_client (fits.clients record mem))
  have pair : ∀ pair : Text × Text, Reads
      (word >>= fun key => word >>= fun value => pure (key, value)) [pair.1, pair.2] pair :=
    fun pair => (reads_word pair.1).bind ((reads_word pair.2).bind (.pure _))
  have pairs := reads_counted fits.pairCount fun one _ => pair one
  rw [isWords]
  exact clients.bind (pairs.bind (.pure _))

theorem reads_flag (last : Bool) : Reads flag [pushNumber last.toNat] last := by
  cases last <;> exact fun _ => rfl

theorem reads_base {start : LogBase} (fits : Small start.start) :
    Reads base (words (encodeBase start)) start := by
  cases start with
  | op opNumber =>
      have kind : words "-".toList = ["-".toList] := by decide
      rw [encodeBase, words_spaced, List.flatMap_cons, List.flatMap_cons, kind, words_pushNumber]
      exact (reads_word _).bind ((reads_num fits).bind (.pure _))
  | checkpoint opNumber =>
      have kind : words "+".toList = ["+".toList] := by decide
      rw [encodeBase, words_spaced, List.flatMap_cons, List.flatMap_cons, kind, words_pushNumber]
      exact (reads_word _).bind ((reads_num fits).bind (.pure _))

theorem reads_segment {segment : LogSegment Op} (fits : SegmentFits segment) :
    Reads Kvstore.segment (words (encodeSegment segment)) segment := by
  have isEntries : words (encodeEntries segment.entries) = pushNumber segment.entries.length ::
      segment.entries.flatMap fun entry => words (writeEntry entry) := by
    rw [encodeEntries, words_spaced, List.flatMap_cons, words_pushNumber, List.flatMap_map]
    rfl
  have log := reads_counted fits.count fun entry mem => reads_entry (fits.entries entry mem)
  rw [← isEntries] at log
  rw [encodeSegment, words_spaced]
  exact (reads_base fits.start).bind (log.bind (.pure _))

/-! ## Frames -/

theorem decode_line {kind : String} {fields : List Nat} {rest : List Text} {sent : Frame}
    (isWord : words kind.toList = [kind.toList])
    (reads : Reads (body (String.ofList kind.toList)) (numbers fields ++ rest.flatMap words) sent) :
    decode (line kind fields rest) = some (.ok sent) := by
  have isWords : words (line kind fields rest) =
      [kind.toList] ++ (numbers fields ++ rest.flatMap words) := by
    rw [line, words_spaced, List.flatMap_append, List.flatMap_cons, isWord, words_numbers]
    rfl
  have whole : Reads frame _ sent := (reads_word kind.toList).bind reads
  have read := whole []
  unfold decode
  rw [isWords, ← List.append_nil ([kind.toList] ++ _), read]
  rfl

/-- A message that fits reads back as it was. -/
theorem decode_message {message : Message Op Text StoreChunk} (fits : MessageFits message) :
    decode (encode (.message message)) = some (.ok (.message message)) := by
  cases message with
  | register clientId => exact decode_line (by decide) ((reads_num fits).bind (.pure _))
  | request clientId session requestNumber answered op =>
      obtain ⟨⟨client, inSession, request, known⟩, fits⟩ := fits
      exact decode_line (by decide) ((reads_num client).bind ((reads_num inSession).bind
        ((reads_num request).bind ((reads_num known).bind ((reads_op fits).bind (.pure _))))))
  | query clientId queryNumber query =>
      obtain ⟨⟨client, number⟩, nonempty, plain⟩ := fits
      have isQuery : Reads word (words query) query := by
        rw [words_plain nonempty plain]
        exact reads_word query
      exact decode_line (by decide) ((reads_num client).bind ((reads_num number).bind
        (isQuery.bind (.pure _))))
  | confirmView viewNumber round =>
      obtain ⟨view, inRound⟩ := fits
      exact decode_line (by decide) ((reads_num view).bind ((reads_numOr inRound _).bind (.pure _)))
  | confirmViewOk viewNumber round replicaId =>
      obtain ⟨view, inRound, replica⟩ := fits
      exact decode_line (by decide) ((reads_num view).bind ((reads_numOr inRound _).bind
        ((reads_num replica).bind (.pure _))))
  | prepare viewNumber opNumber entry commitNumber =>
      obtain ⟨⟨view, number, committed⟩, fits⟩ := fits
      exact decode_line (by decide) ((reads_num view).bind ((reads_num number).bind
        ((reads_num committed).bind ((reads_entry fits).bind (.pure _)))))
  | prepareOk viewNumber opNumber replicaId =>
      obtain ⟨view, number, replica⟩ := fits
      exact decode_line (by decide) ((reads_num view).bind ((reads_num number).bind
        ((reads_num replica).bind (.pure _))))
  | commit viewNumber commitNumber =>
      obtain ⟨view, committed⟩ := fits
      exact decode_line (by decide) ((reads_num view).bind ((reads_num committed).bind (.pure _)))
  | getState replicaId viewNumber opNumber =>
      obtain ⟨replica, view, number⟩ := fits
      exact decode_line (by decide) ((reads_num replica).bind ((reads_num view).bind
        ((reads_num number).bind (.pure _))))
  | newState replicaId viewNumber segment commitNumber =>
      obtain ⟨⟨replica, view, committed⟩, fits⟩ := fits
      exact decode_line (by decide) ((reads_num replica).bind ((reads_num view).bind
        ((reads_num committed).bind ((reads_segment fits).bind (.pure _)))))
  | getChunk replicaId opNumber index =>
      obtain ⟨replica, number, inChunk⟩ := fits
      exact decode_line (by decide) ((reads_num replica).bind ((reads_num number).bind
        ((reads_num inChunk).bind (.pure _))))
  | newChunk replicaId opNumber index chunk last =>
      obtain ⟨⟨replica, number, inChunk⟩, fits⟩ := fits
      exact decode_line (by decide) ((reads_num replica).bind ((reads_num number).bind
        ((reads_num inChunk).bind ((reads_flag last).bind ((reads_chunk fits).bind (.pure _))))))
  | startViewChange viewNumber replicaId =>
      obtain ⟨view, replica⟩ := fits
      exact decode_line (by decide) ((reads_num view).bind ((reads_num replica).bind (.pure _)))
  | doViewChange viewNumber replicaId lastNormalView segment commitNumber =>
      obtain ⟨⟨view, replica, normal, committed⟩, fits⟩ := fits
      exact decode_line (by decide) ((reads_num view).bind ((reads_num replica).bind
        ((reads_num normal).bind ((reads_num committed).bind ((reads_segment fits).bind (.pure _))))))
  | startView viewNumber segment commitNumber =>
      obtain ⟨⟨view, committed⟩, fits⟩ := fits
      exact decode_line (by decide) ((reads_num view).bind ((reads_num committed).bind
        ((reads_segment fits).bind (.pure _))))
  | recovery replicaId nonce viewNumber =>
      obtain ⟨replica, isNonce, view⟩ := fits
      exact decode_line (by decide) ((reads_num replica).bind ((reads_numOr isNonce _).bind
        ((reads_num view).bind (.pure _))))
  | recoveryResponse viewNumber nonce replicaId state =>
      obtain ⟨⟨view, isNonce, replica⟩, fits⟩ := fits
      cases state with
      | none =>
          have told : Reads recoveryState (words "-".toList) none := fun _ => rfl
          exact decode_line (by decide) ((reads_num view).bind ((reads_numOr isNonce _).bind
            ((reads_num replica).bind (told.bind (.pure _)))))
      | some state =>
          obtain ⟨committed, fits⟩ := fits state rfl
          have told : Reads recoveryState (["+".toList] ++ ([pushNumber state.commitNumber] ++
              (words (encodeSegment state.segment) ++ []))) (some state) :=
            (reads_word _).bind ((reads_num committed).bind ((reads_segment fits).bind (.pure _)))
          have kind : words "+".toList = ["+".toList] := by decide
          refine decode_line (by decide) ?_
          simp only [List.flatMap_cons, List.flatMap_nil, kind, words_pushNumber]
          exact (reads_num view).bind ((reads_numOr isNonce _).bind ((reads_num replica).bind
            (told.map _)))

/-- A reply that fits reads back as it was. -/
theorem decode_reply {reply : Reply (Option Text)} (fits : ReplyFits reply) :
    decode (encode (.reply reply)) = some (.ok (.reply reply)) := by
  cases reply with
  | registered viewNumber clientId session =>
      obtain ⟨view, client, inSession⟩ := fits
      exact decode_line (by decide) ((reads_num view).bind ((reads_num client).bind
        ((reads_num inSession).bind (.pure _))))
  | executed viewNumber clientId session requestNumber result =>
      obtain ⟨⟨view, client, inSession, request⟩, fits⟩ := fits
      exact decode_line (by decide) ((reads_num view).bind ((reads_num client).bind
        ((reads_num inSession).bind ((reads_num request).bind ((reads_result fits).bind (.pure _))))))
  | evicted viewNumber clientId session =>
      obtain ⟨view, client, inSession⟩ := fits
      exact decode_line (by decide) ((reads_num view).bind ((reads_num client).bind
        ((reads_num inSession).bind (.pure _))))
  | queried viewNumber clientId queryNumber result =>
      obtain ⟨⟨view, client, number⟩, fits⟩ := fits
      exact decode_line (by decide) ((reads_num view).bind ((reads_num client).bind
        ((reads_num number).bind ((reads_result fits).bind (.pure _)))))

/-- A frame that fits reads back as it was. -/
theorem decode_encode {frame : Frame} (fits : frame.Fits) : decode (encode frame) = some (.ok frame) := by
  cases frame with
  | message message => exact decode_message fits
  | reply reply => exact decode_reply fits

end Vsr.Kvstore
