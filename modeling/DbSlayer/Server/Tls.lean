import DbSlayer.Foundation.Steps
import DbSlayer.Http.Delivery

/-! # Receives over TLS

The TLS layer decrypts a record as a whole and keeps what a receive does not take,
where the poll of the socket does not see it. `buffer_size` is both what the next
receive is offered and what the last one brought, so that a record longer than the
one before it is not read to its end.
-/

namespace DbSlayer.Server

open DbSlayer.Http Foundation

/-- The plaintext of one record. -/
structure TlsRecord where
  text : Bytes
  text_ne_nil : text ≠ []
  length_le : text.length ≤ 16384

/-- The unread plaintext of the record that was decrypted last, and the records that
are still in the socket. -/
structure TlsLayer where
  unread : Bytes
  socket : List TlsRecord

/-- `SSL_read`, with `none` when there is nothing to return. -/
def sslRead (layer : TlsLayer) (len : Nat) : Option (Bytes × TlsLayer) :=
  match layer.unread, layer.socket with
  | c :: rest, _ => some ((c :: rest).take len, { layer with unread := (c :: rest).drop len })
  | [], [] => none
  | [], record :: socket => some (record.text.take len, ⟨record.text.drop len, socket⟩)

/-- `slayer_tls_recv`. -/
def slayerTlsRecv (layer : TlsLayer) (len : Nat) : Option (Bytes × TlsLayer) :=
  if len = 0 then none else sslRead layer len

/-- A connection while its request is received. -/
structure TlsConnection where
  buffer : ParseBuffer
  layer : TlsLayer

/-- `request_parse` on such a connection. -/
def tlsRequestParse (conn : TlsConnection) : ParseStatus × TlsLayer :=
  if conn.buffer.unread = [] then
    match slayerTlsRecv conn.layer conn.buffer.bufferSize with
    | none => (.invalid [], conn.layer)
    | some (received, layer) => (requestParse conn.buffer received, layer)
  else (requestParse conn.buffer [], conn.layer)

/-- One round of the listener: the poll reports the socket when a record is in it. The
round ends the run when the request is handed on or given up. -/
def TlsConnection.round (conn : TlsConnection) (_ : Unit) : Option TlsConnection :=
  if conn.layer.socket.isEmpty then none
  else
    match tlsRequestParse conn with
    | (.invalid _, _) => none
    | (.parsed buffer, layer) =>
        if buffer.parse.headerState = .done then none else some ⟨buffer, layer⟩

def TlsConnection.initial (uriSize : Nat) (records : List TlsRecord) : TlsConnection :=
  ⟨parseBufferInit uriSize, [], records⟩

/-- The layer holds no plaintext that was not parsed. -/
def NothingStranded (conn : TlsConnection) : Prop := conn.layer.unread = []

/-! ## Which records are read to their end -/

/-- A text that neither completes the headers of a request nor breaks them. -/
def HeadIncomplete (uriSize : Nat) (text : Bytes) : Prop :=
  ∃ parse, consume feed isComplete (requestParseInit uriSize) text = .waiting parse

/-- Behind the text `seen`, a record is offered `offered` bytes. As long as the head is
incomplete with these, it must be no longer, and the next one no longer than it. -/
def RecordsFit (uriSize : Nat) : Bytes → Nat → List TlsRecord → Prop
  | _, _, [] => True
  | seen, offered, record :: rest =>
      HeadIncomplete uriSize (seen ++ record.text.take offered) →
        record.text.length ≤ offered ∧
          RecordsFit uriSize (seen ++ record.text) record.text.length rest

/-- What one round comes to when everything before it was read: the record that arrives is
parsed as far as the offered size allows. -/
theorem round_record {parse : RequestParse} {offered : Nat} {record : TlsRecord}
    {socket : List TlsRecord} (hcount : Uncounted parse) (hopen : parse.headerState ≠ .done)
    (hoffered : 0 < offered) :
    TlsConnection.round ⟨⟨parse, offered, []⟩, [], record :: socket⟩ () =
      match consume feed isComplete parse (record.text.take offered) with
      | .waiting next =>
          some ⟨⟨next, (record.text.take offered).length, []⟩, record.text.drop offered, socket⟩
      | _ => none := by
  have hreceived : record.text.take offered ≠ [] := by
    rw [ne_eq, List.take_eq_nil_iff, not_or]
    exact ⟨by omega, record.text_ne_nil⟩
  have hcall : tlsRequestParse ⟨⟨parse, offered, []⟩, [], record :: socket⟩ =
      (.ofOutcome (record.text.take offered).length
        (consume feed isComplete parse (record.text.take offered)),
        ⟨record.text.drop offered, socket⟩) := by
    have hparse := @requestParse_eq parse offered _ hcount hopen hreceived
    simp [tlsRequestParse, slayerTlsRecv, sslRead, Nat.pos_iff_ne_zero.mp hoffered, hparse]
  simp only [TlsConnection.round, List.isEmpty_cons, Bool.false_eq_true, if_false, hcall]
  cases hrun : consume feed isComplete parse (record.text.take offered) with
  | rejected unread => rfl
  | complete next unread =>
      have hfinal : next.headerState = .done := by
        have hlast := final_of_complete hrun
        simpa [isComplete] using hlast
      simp [ParseStatus.ofOutcome, hfinal]
  | waiting next =>
      obtain ⟨-, hopen'⟩ := consume_waiting hcount hopen hrun
      simp [ParseStatus.ofOutcome, hopen']

/-- Whether a head is incomplete behind some bytes is decided by what follows them, from the
state that the parse waits in. -/
theorem headIncomplete_append_iff {uriSize : Nat} {seen : Bytes} {parse : RequestParse}
    (hseen : consume feed isComplete (requestParseInit uriSize) seen = .waiting parse)
    (text : Bytes) :
    HeadIncomplete uriSize (seen ++ text) ↔
      ∃ next, consume feed isComplete parse text = .waiting next := by
  rw [HeadIncomplete, consume_append, hseen]

/-- The equivalence from any state in which everything received so far was parsed, by induction
on the records. -/
theorem nothingStranded_iff_recordsFit {uriSize offered : Nat} {seen : Bytes}
    {parse : RequestParse} {records : List TlsRecord}
    (hseen : consume feed isComplete (requestParseInit uriSize) seen = .waiting parse)
    (hcount : Uncounted parse) (hopen : parse.headerState ≠ .done) (hoffered : 0 < offered) :
    (∀ rounds, Always TlsConnection.round NothingStranded ⟨⟨parse, offered, []⟩, [], records⟩
        (List.replicate rounds ())) ↔
      RecordsFit uriSize seen offered records := by
  induction records generalizing seen parse offered with
  | nil =>
      refine iff_of_true ?_ trivial
      intro rounds
      cases rounds with
      | zero => rfl
      | succ rounds => exact ⟨rfl, fun _ hround => by simp [TlsConnection.round] at hround⟩
  | cons record rest ih =>
      have hround := @round_record parse offered record rest hcount hopen hoffered
      rw [RecordsFit, headIncomplete_append_iff hseen]
      cases hrun : consume feed isComplete parse (record.text.take offered) with
      | rejected unread | complete next unread =>
          -- The run ends here, so there is nothing to ask of the record.
          refine iff_of_true ?_ (by simp)
          intro rounds
          cases rounds with
          | zero => rfl
          | succ rounds => exact ⟨rfl, fun _ hnext => by simp [hround, hrun] at hnext⟩
      | waiting next =>
          simp only [hrun] at hround
          have hseen' : consume feed isComplete (requestParseInit uriSize)
              (seen ++ record.text.take offered) = .waiting next := by
            rw [consume_append, hseen]
            exact hrun
          obtain ⟨hcount', hopen'⟩ := consume_waiting hcount hopen hrun
          have hlength : 0 < record.text.length := List.length_pos_iff.mpr record.text_ne_nil
          constructor
          · intro halways _
            have hfits : record.text.length ≤ offered := by
              have hafter := ((halways 1).2 _ hround).head
              exact List.drop_eq_nil_iff.mp hafter
            rw [List.take_of_length_le hfits, List.drop_eq_nil_of_le hfits] at hround
            rw [List.take_of_length_le hfits] at hseen'
            refine ⟨hfits, (ih hseen' hcount' hopen' hlength).mp ?_⟩
            intro rounds
            exact (halways (rounds + 1)).2 _ hround
          · intro hfit
            obtain ⟨hfits, hrest⟩ := hfit ⟨next, rfl⟩
            rw [List.take_of_length_le hfits, List.drop_eq_nil_of_le hfits] at hround
            rw [List.take_of_length_le hfits] at hseen'
            intro rounds
            cases rounds with
            | zero => rfl
            | succ rounds =>
                refine ⟨rfl, fun reached hnext => ?_⟩
                obtain rfl := Option.some.inj (hround.symm.trans hnext)
                exact (ih hseen' hcount' hopen' hlength).mpr hrest rounds

/-- No plaintext is left in the TLS layer before a poll if and only if no record is longer
than what it is offered. -/
theorem tls_nothingStranded_iff (uriSize : Nat) (huri : 0 < uriSize) (records : List TlsRecord) :
    (∀ rounds, Always TlsConnection.round NothingStranded (.initial uriSize records)
        (List.replicate rounds ())) ↔
      RecordsFit uriSize [] uriSize records :=
  nothingStranded_iff_recordsFit rfl (fun _ => rfl) (by simp [requestParseInit]) huri

def shrinkingRecords : List TlsRecord :=
  [⟨bytes "GET /db HTTP/1.0\n", by decide, by decide⟩,
    ⟨bytes "Host: db\n", by decide, by decide⟩, ⟨bytes "\n", by decide, by decide⟩]

theorem tls_nothingStranded_shrinking :
    0 < 1024000 ∧ Always TlsConnection.round NothingStranded (.initial 1024000 shrinkingRecords)
      (List.replicate 3 ()) := by
  have hfit : RecordsFit 1024000 [] 1024000 shrinkingRecords :=
    fun _ => ⟨by decide, fun _ => ⟨by decide, fun _ => ⟨by decide, trivial⟩⟩⟩
  exact ⟨by decide, (tls_nothingStranded_iff 1024000 (by decide) shrinkingRecords).mpr hfit 3⟩

/-- The first record is shorter than the second: what is behind its length stays in the
layer, with nothing in the socket for the poll to report. -/
def strandedRecords : List TlsRecord :=
  [⟨bytes "GET /", by decide, by decide⟩, ⟨bytes "db HTTP/1.0\n\n", by decide, by decide⟩]

theorem tls_strands_longer_record :
    (∃ conn, [(), ()].foldlM TlsConnection.round (.initial 1024000 strandedRecords) = some conn ∧
      conn.layer.unread = bytes "TP/1.0\n\n" ∧ conn.layer.socket = []) ∧
      ¬ Always TlsConnection.round NothingStranded (.initial 1024000 strandedRecords) [(), ()] := by
  have hunread : (([(), ()].foldlM TlsConnection.round (.initial 1024000 strandedRecords)).map
      fun conn => (conn.layer.unread, conn.layer.socket.length)) =
        some (bytes "TP/1.0\n\n", 0) := by decide +kernel
  obtain ⟨conn, hrun, hlayer⟩ := Option.map_eq_some_iff.mp hunread
  obtain ⟨hleft, hsocket⟩ := Prod.mk.inj hlayer
  refine ⟨⟨conn, hrun, hleft, List.length_eq_zero_iff.mp hsocket⟩, ?_⟩
  intro halways
  have hnothing : conn.layer.unread = [] := halways.last hrun
  rw [hleft] at hnothing
  exact absurd hnothing (by decide)

end DbSlayer.Server
