import DbSlayer.Http.Correctness
import DbSlayer.Server.Logging

/-! # The lines of the log file

`slayer_server_log_request` and `slayer_server_log_err_message`, down to the bytes
that they append to the file. Request lines and error texts come from clients and
from the database server, so they pass `slayer_log_sanitize` first.
-/

namespace DbSlayer.Server

open DbSlayer.Http DbSlayer.Json Foundation

/-! ## The functions -/

/-- The bytes that may not come from a client: control bytes and DEL. -/
def isControl (c : Byte) : Bool := c < 0x20 || c = 0x7f

/-- The byte that stands for a byte of the input. -/
def sanitizeByte (c : Byte) : Byte := if isControl c then ch '_' else c

/-- `slayer_log_sanitize`, on a pointer that may be null. -/
def slayerLogSanitize : Option Bytes → Bytes
  | none => []
  | some s => (cstr s).map sanitizeByte

/-- `slayer_server_log_message`. -/
def slayerServerLogMessage (manager : LogManager) (message : Bytes) : LogManager :=
  { manager with file := manager.file.map (· ++ cstr message) }

/-- What a call reads besides its arguments: the address of the client, the clock, and
the date as `apr_strftime` prints it, in the format of JSON lines and in that of plain
ones. -/
structure LogContext where
  clientIp : Bytes
  currentTime : Int64
  gmtDate : Bytes
  localDate : Bytes
deriving DecidableEq, Repr

/-- `apr_pstrndup` up to a pointer into the string, or the string itself for a null one. -/
def upTo (s : Bytes) : Option Bytes → Bytes
  | none => s
  | some stop => s.take (s.length - stop.length)

section Lines

variable {δ : Type}

/-- The members of a JSON line. -/
def requestMembers (context : LogContext) (method path : Bytes) (responseCode : Int32)
    (nbytesSent : UInt64) (timeToservice : Int64) : List (Bytes × JsonValue δ) := [
  (bytes "ts", jsonStringCreate context.gmtDate),
  (bytes "ip", jsonStringCreate context.clientIp),
  (bytes "method", jsonStringCreate method),
  (bytes "path", jsonStringCreate path),
  (bytes "status", .long responseCode.toInt64),
  (bytes "bytes", .long nbytesSent.toInt64),
  (bytes "duration_ms", .long (timeToservice / 1000))]

/-- The object of a JSON line. The method ends at the first space, the path at the next. -/
def requestEntry (context : LogContext) (requestLine : Bytes) (responseCode : Int32)
    (nbytesSent : UInt64) (timeToservice : Int64) : JsonValue δ :=
  let methodEnd := strchr requestLine (ch ' ')
  let pathStart := (methodEnd.map (·.drop 1)).getD []
  let pathEnd := strchr pathStart (ch ' ')
  .object (objectOf (requestMembers context (upTo requestLine methodEnd) (upTo pathStart pathEnd)
    responseCode nbytesSent timeToservice))

/-- The start of a plain line, up to the quote behind the request line. -/
def plainStart (context : LogContext) (requestLine : Bytes) : Bytes :=
  context.clientIp ++ bytes " - - " ++ bytes "[" ++ context.localDate ++ bytes "] \"" ++
    requestLine ++ bytes "\""

def plainLine (context : LogContext) (requestLine : Bytes) (responseCode : Int32)
    (nbytesSent : UInt64) (timeToservice : Int64) : Bytes :=
  plainStart context requestLine ++ bytes " " ++ printLong responseCode.toInt64 ++ bytes " " ++
    printNat nbytesSent.toNat ++ bytes " " ++ printLong timeToservice ++ bytes "\n"

end Lines

section Calls

variable (δ : Type) [CDouble δ]

def slayerServerLogRequest (manager : LogManager) (context : LogContext)
    (requestLine : Option Bytes) (responseCode : Int32) (nbytesSent : UInt64)
    (timeToservice : Int64) : LogManager :=
  let requestLine := slayerLogSanitize requestLine
  let message :=
    if manager.jsonLogs then
      jsonSerialize (requestEntry context requestLine responseCode nbytesSent timeToservice :
        JsonValue δ) ++ bytes "\n"
    else plainLine context requestLine responseCode nbytesSent timeToservice
  slayerServerLogAddEntry δ (slayerServerLogMessage manager message) context.clientIp
    context.currentTime requestLine responseCode nbytesSent timeToservice

def slayerServerLogErrMessage (manager : LogManager) (context : LogContext)
    (requestLine errorMessage : Option Bytes) : LogManager :=
  let requestLine := slayerLogSanitize requestLine
  let errorMessage := slayerLogSanitize errorMessage
  let message := plainStart context requestLine ++ bytes " " ++ errorMessage ++ bytes "\n"
  slayerServerLogAddError δ (slayerServerLogMessage manager message) context.clientIp
    context.currentTime requestLine errorMessage

end Calls

/-- The request line that `handle_outgoing_response` logs, for either version. -/
def requestText (parse : RequestParse) : Bytes :=
  (if parse.method = .get then bytes "GET " else bytes "POST ") ++ cstr parse.uriData ++
    (if parse.version = .http10 then bytes " HTTP/1.0" else bytes " HTTP/1.0")

/-! ## Clean texts -/

/-- Texts without control bytes. -/
def Clean (s : Bytes) : Prop := ∀ c ∈ s, isControl c = false

instance (s : Bytes) : Decidable (Clean s) :=
  List.decidableBAll (fun c => isControl c = false) s

/-- A line: the newline at its end is its only control byte. -/
def IsLine (message : Bytes) : Prop := ∃ body, message = body ++ [10] ∧ Clean body

@[simp] theorem clean_nil : Clean [] := by simp [Clean]

@[simp] theorem clean_cons {c : Byte} {s : Bytes} :
    Clean (c :: s) ↔ isControl c = false ∧ Clean s := by
  simp [Clean]

/-- A text is clean when its parts are. -/
@[simp] theorem clean_append {s t : Bytes} : Clean (s ++ t) ↔ Clean s ∧ Clean t := by
  simp only [Clean, List.mem_append]
  exact ⟨fun hall => ⟨fun c hc => hall c (.inl hc), fun c hc => hall c (.inr hc)⟩,
    fun hboth c hc => hc.elim (hboth.1 c) (hboth.2 c)⟩

theorem Clean.nulFree {s : Bytes} (hclean : Clean s) : NulFree s := by
  intro hzero
  exact absurd (hclean 0 hzero) (by decide)

theorem isControl_sanitizeByte : ∀ c, isControl (sanitizeByte c) = false :=
  forall_byte (by decide +kernel)

theorem clean_slayerLogSanitize (s : Option Bytes) : Clean (slayerLogSanitize s) := by
  cases s with
  | none => exact clean_nil
  | some s =>
      intro c hc
      obtain ⟨original, -, rfl⟩ := List.mem_map.mp hc
      exact isControl_sanitizeByte original

theorem clean_printNat (n : Nat) : Clean (printNat n) := by
  have hdigit : ∀ c, isdigit c = true → isControl c = false :=
    forall_byte (p := fun c => isdigit c = true → isControl c = false) (by decide +kernel)
  exact fun c hc => hdigit c (isdigit_of_mem_printNat hc)

theorem clean_printLong (n : Int64) : Clean (printLong n) := by
  have hminus : isControl (ch '-') = false := by decide
  rw [printLong]
  split <;> simp [hminus, clean_printNat]

theorem clean_jsonStringSerialize {value : Bytes} (hclean : Clean value) :
    Clean (jsonStringSerialize value) := by
  have hescape : ∀ c, isControl c = false → Clean (jsonEscape c) :=
    forall_byte (p := fun c => isControl c = false → Clean (jsonEscape c)) (by decide +kernel)
  have hquote : isControl (ch '"') = false := by decide
  have hbody : Clean ((cstr value).flatMap jsonEscape) := by
    intro c hc
    obtain ⟨original, horiginal, hmem⟩ := List.mem_flatMap.mp hc
    exact hescape original (hclean original ((List.takeWhile_sublist _).subset horiginal)) c hmem
  simp [jsonStringSerialize, hquote, hbody]

section Serialized

variable {δ : Type} [CDouble δ]

theorem clean_jsonMembersSerialize {entries : Entries δ} (hkeys : ∀ entry ∈ entries, Clean entry.1)
    (hvalues : ∀ entry ∈ entries, Clean (jsonSerializeInternal entry.2)) :
    Clean (jsonMembersSerialize entries) := by
  induction entries with
  | nil =>
      rw [jsonMembersSerialize]
      exact clean_nil
  | cons entry rest ih =>
      have hkey := clean_jsonStringSerialize (hkeys entry List.mem_cons_self)
      have hvalue := hvalues entry List.mem_cons_self
      have hrest := ih (fun other hother => hkeys other (List.mem_cons_of_mem entry hother))
        (fun other hother => hvalues other (List.mem_cons_of_mem entry hother))
      have hcolon : Clean (bytes " : ") := by decide
      have hend : Clean (if rest.isEmpty then bytes "\x7d" else bytes " , ") := by
        split <;> decide
      rw [jsonMembersSerialize]
      simp only [clean_append]
      exact ⟨⟨⟨⟨hkey, hcolon⟩, hvalue⟩, hend⟩, hrest⟩

/-- The text of an object has only the control bytes that its members have. -/
theorem clean_jsonSerialize_object {members : List (Bytes × JsonValue δ)}
    (hkeys : ∀ member ∈ members, Clean member.1)
    (hvalues : ∀ member ∈ members, Clean (jsonSerializeInternal member.2)) :
    Clean (jsonSerialize (.object (objectOf members))) := by
  have hperm := objectOf_perm members
  have hbody : Clean (jsonMembersSerialize (objectOf members)) :=
    clean_jsonMembersSerialize (fun entry hentry => hkeys entry (hperm.mem_iff.mp hentry))
      (fun entry hentry => hvalues entry (hperm.mem_iff.mp hentry))
  have hopen : Clean (bytes "\x7b") := by decide
  have hempty : Clean (bytes "\x7b\x7d") := by decide
  rw [jsonSerialize, jsonSerializeInternal]
  split
  · exact hempty
  · exact clean_append.mpr ⟨hopen, hbody⟩

end Serialized

/-! ## Accepted request lines -/

/-- The target of a request that completed the parser has no space and no zero byte, and it is
shorter than the limit. -/
theorem isUri_of_complete {uriSize : Nat} {receives : List Bytes} {parse : RequestParse}
    {unread : Bytes}
    (hrun : runReceives (parseBufferInit uriSize) receives = .complete parse unread) :
    IsUri uriSize parse.uriData := by
  have hstream := consume_of_runReceives_complete (fun _ => rfl) (by simp [requestParseInit]) hrun
  obtain ⟨request, text, count, -, hhead, rfl⟩ := requestHead_of_complete hstream
  cases hhead with
  | mk hline _ _ _ =>
      cases hline with
      | mk _ huri _ _ => exact huri

theorem nulFree_of_isUri {uriSize : Nat} {uri : Bytes} (huri : IsUri uriSize uri) :
    NulFree uri := fun hzero => (huri.2.1 0 hzero).2 rfl

theorem sanitizeByte_ne_space : ∀ c, c ≠ ch ' ' → sanitizeByte c ≠ ch ' ' :=
  forall_byte (p := fun c => c ≠ ch ' ' → sanitizeByte c ≠ ch ' ') (by decide +kernel)

theorem sanitizeByte_ne_zero : ∀ c, sanitizeByte c ≠ 0 :=
  forall_byte (by decide +kernel)

/-- The request line has one space behind the method and one behind the target. -/
theorem requestText_eq {parse : RequestParse} (hfree : NulFree parse.uriData) :
    requestText parse = methodText parse.method ++ ch ' ' :: (parse.uriData ++
      ch ' ' :: bytes "HTTP/1.0") := by
  have hmethod : (if parse.method = .get then bytes "GET " else bytes "POST ") =
      methodText parse.method ++ [ch ' '] := by
    cases parse.method <;> rfl
  have hprotocol : (if parse.version = .http10 then bytes " HTTP/1.0" else bytes " HTTP/1.0") =
      ch ' ' :: bytes "HTTP/1.0" := by
    split <;> rfl
  rw [requestText, hmethod, hprotocol, cstr_of_nulFree hfree]
  simp

/-- The logged request line is the method, the sanitized target and the protocol. -/
theorem sanitize_requestText {parse : RequestParse} (hfree : NulFree parse.uriData) :
    slayerLogSanitize (some (requestText parse)) =
      methodText parse.method ++ ch ' ' :: (parse.uriData.map sanitizeByte ++
        ch ' ' :: bytes "HTTP/1.0") := by
  have hmethod : NulFree (methodText parse.method) ∧
      (methodText parse.method).map sanitizeByte = methodText parse.method := by
    cases parse.method <;> decide
  have hprotocol : NulFree (bytes "HTTP/1.0") ∧
      (bytes "HTTP/1.0").map sanitizeByte = bytes "HTTP/1.0" := by decide
  have hblank : ch ' ' ≠ 0 ∧ sanitizeByte (ch ' ') = ch ' ' := by decide
  have hline : NulFree (requestText parse) := by
    simp [requestText_eq hfree, hmethod.1, hfree, hprotocol.1, hblank.1]
  rw [slayerLogSanitize, cstr_of_nulFree hline, requestText_eq hfree]
  simp [hmethod.2, hprotocol.2, hblank.2]

/-- A text up to the first occurrence of a byte is what stands in front of that byte. -/
theorem upTo_strchr {s t : Bytes} {c : Byte} (hs : NulFree s) (hc : c ≠ 0) (ht : NulFree t)
    (hfirst : c ∉ s) : upTo (s ++ c :: t) (strchr (s ++ c :: t) c) = s := by
  rw [strchr_append hs hc ht hfirst, upTo, List.length_append, Nat.add_sub_cancel_right,
    List.take_left]

/-! ## The messages -/

section Messages

variable {δ : Type} {context : LogContext}

/-- The members of an entry are strings and integers. -/
theorem flatRecord_requestMembers (context : LogContext) (method path : Bytes)
    (responseCode : Int32) (nbytesSent : UInt64) (timeToservice : Int64) :
    FlatRecord (requestMembers context method path responseCode nbytesSent timeToservice :
      List (Bytes × JsonValue δ)) := by
  constructor
  · simp only [requestMembers, List.map_cons, List.map_nil]
    decide
  · simp only [requestMembers, List.forall_mem_cons, List.not_mem_nil, false_imp_iff,
      implies_true, and_true]
    decide
  · simp [requestMembers, jsonStringCreate, nulFree_cstr]
  · simp [requestMembers]

theorem objectGet_requestMembers (context : LogContext) (method path : Bytes)
    (responseCode : Int32) (nbytesSent : UInt64) (timeToservice : Int64) :
    objectGet (objectOf (requestMembers (δ := δ) context method path responseCode nbytesSent
        timeToservice)) (bytes "method") = some (jsonStringCreate method) ∧
      objectGet (objectOf (requestMembers (δ := δ) context method path responseCode nbytesSent
        timeToservice)) (bytes "path") = some (jsonStringCreate path) := by
  rw [objectGet_objectOf, objectGet_objectOf]
  exact ⟨rfl, rfl⟩

variable [CDouble δ]

theorem clean_jsonStringCreate {s : Bytes} (hclean : Clean s) :
    Clean (jsonSerializeInternal (jsonStringCreate s : JsonValue δ)) := by
  rw [jsonStringCreate, jsonSerializeInternal, cstr_of_nulFree hclean.nulFree]
  exact clean_jsonStringSerialize hclean

theorem clean_long (number : Int64) :
    Clean (jsonSerializeInternal (.long number : JsonValue δ)) := by
  rw [jsonSerializeInternal]
  exact clean_printLong number

theorem clean_requestMembers (hip : Clean context.clientIp) (hdate : Clean context.gmtDate)
    {method path : Bytes} (hmethod : Clean method) (hpath : Clean path) (responseCode : Int32)
    (nbytesSent : UInt64) (timeToservice : Int64) :
    Clean (jsonSerialize (.object (objectOf (requestMembers context method path responseCode
      nbytesSent timeToservice)) : JsonValue δ)) := by
  apply clean_jsonSerialize_object
  · simp only [requestMembers, List.forall_mem_cons, List.not_mem_nil, false_imp_iff,
      implies_true, and_true]
    decide
  · simp [requestMembers, clean_jsonStringCreate, clean_long, hip, hdate, hmethod, hpath]

theorem clean_upTo {s : Bytes} (hclean : Clean s) (stop : Option Bytes) : Clean (upTo s stop) := by
  cases stop with
  | none => exact hclean
  | some stop => exact fun c hc => hclean c (List.mem_of_mem_take hc)

theorem clean_requestEntry (hip : Clean context.clientIp) (hdate : Clean context.gmtDate)
    {requestLine : Bytes} (hline : Clean requestLine) (responseCode : Int32) (nbytesSent : UInt64)
    (timeToservice : Int64) :
    Clean (jsonSerialize (requestEntry context requestLine responseCode nbytesSent timeToservice :
      JsonValue δ)) := by
  have hstart : Clean (((strchr requestLine (ch ' ')).map (·.drop 1)).getD []) := by
    unfold strchr
    split
    · intro c hc
      exact hline c ((List.takeWhile_sublist _).subset
        (List.dropWhile_subset _ (List.mem_of_mem_drop hc)))
    · exact clean_nil
  exact clean_requestMembers hip hdate (clean_upTo hline _) (clean_upTo hstart _) _ _ _

theorem clean_plainStart (hip : Clean context.clientIp) (hdate : Clean context.localDate)
    {requestLine : Bytes} (hline : Clean requestLine) : Clean (plainStart context requestLine) := by
  have hconstants : Clean (bytes " - - ") ∧ Clean (bytes "[") ∧ Clean (bytes "] \"") ∧
      Clean (bytes "\"") := by decide
  simp [plainStart, hip, hdate, hline, hconstants]

theorem isLine_plainLine (hip : Clean context.clientIp) (hdate : Clean context.localDate)
    {requestLine : Bytes} (hline : Clean requestLine) (responseCode : Int32) (nbytesSent : UInt64)
    (timeToservice : Int64) :
    IsLine (plainLine context requestLine responseCode nbytesSent timeToservice) := by
  have hspace : Clean (bytes " ") := by decide
  refine ⟨_, rfl, ?_⟩
  simp [clean_plainStart hip hdate hline, hspace, clean_printLong, clean_printNat]

/-- The last three fields of a plain line are the numbers. -/
theorem splitOn_plainLine (context : LogContext) (requestLine : Bytes) (responseCode : Int32)
    (nbytesSent : UInt64) (timeToservice : Int64) :
    (plainLine context requestLine responseCode nbytesSent timeToservice).dropLast.splitOn
        (ch ' ') =
      (plainStart context requestLine).splitOn (ch ' ') ++
        [printLong responseCode.toInt64, printNat nbytesSent.toNat, printLong timeToservice] := by
  have hnat : ∀ n, ch ' ' ∉ printNat n := by
    intro n hspace
    exact absurd (isdigit_of_mem_printNat hspace) (by decide)
  have hlong : ∀ n, ch ' ' ∉ printLong n := by
    intro n
    have hminus : ch ' ' ≠ ch '-' := by decide
    rw [printLong]
    split <;> simp [hnat, hminus]
  have hbody : (plainLine context requestLine responseCode nbytesSent timeToservice).dropLast =
      plainStart context requestLine ++ ch ' ' :: (printLong responseCode.toInt64 ++
        ch ' ' :: (printNat nbytesSent.toNat ++ ch ' ' :: printLong timeToservice)) := by
    have hnewline : bytes "\n" = [10] := by decide
    have hspace : bytes " " = [ch ' '] := by decide
    rw [plainLine, hnewline, hspace, List.dropLast_concat]
    simp
  rw [hbody, List.splitOn_append_cons_self, List.splitOn_append_cons_self_of_not_mem (hlong _),
    List.splitOn_append_cons_self_of_not_mem (hnat _), List.splitOn_eq_singleton (hlong _)]

omit [CDouble δ] in
/-- The method and the path of a JSON line are those of the request. -/
theorem requestEntry_requestText {parse : RequestParse} (hfree : NulFree parse.uriData)
    (hspace : ch ' ' ∉ parse.uriData) (context : LogContext) (responseCode : Int32)
    (nbytesSent : UInt64) (timeToservice : Int64) :
    requestEntry (δ := δ) context (slayerLogSanitize (some (requestText parse))) responseCode
        nbytesSent timeToservice =
      .object (objectOf (requestMembers context (methodText parse.method)
        (parse.uriData.map sanitizeByte) responseCode nbytesSent timeToservice)) := by
  have hmethod : NulFree (methodText parse.method) ∧ ch ' ' ∉ methodText parse.method := by
    cases parse.method <;> decide
  have hpath : NulFree (parse.uriData.map sanitizeByte) := by
    intro hzero
    obtain ⟨c, -, hc⟩ := List.mem_map.mp hzero
    exact sanitizeByte_ne_zero c hc
  have hpath' : ch ' ' ∉ parse.uriData.map sanitizeByte := by
    intro hmem
    obtain ⟨c, hc, heq⟩ := List.mem_map.mp hmem
    exact sanitizeByte_ne_space c (fun hblank => hspace (hblank ▸ hc)) heq
  have hblank : ch ' ' ≠ 0 := by decide
  have hprotocol : NulFree (bytes "HTTP/1.0") := by decide
  have hrest : NulFree (parse.uriData.map sanitizeByte ++ ch ' ' :: bytes "HTTP/1.0") := by
    simp [hpath, hblank, hprotocol]
  rw [sanitize_requestText hfree, requestEntry, upTo_strchr hmethod.1 hblank hrest hmethod.2,
    strchr_append hmethod.1 hblank hrest hmethod.2]
  simp only [Option.map_some, Option.getD_some, List.drop_succ_cons, List.drop_zero]
  rw [upTo_strchr hpath hblank hprotocol hpath']

/-- A JSON line gives the method and the path back. -/
theorem decodeText_jsonLine {parse : RequestParse} (hfree : NulFree parse.uriData)
    (hspace : ch ' ' ∉ parse.uriData) (context : LogContext) (responseCode : Int32)
    (nbytesSent : UInt64) (timeToservice : Int64) :
    ∃ entries : Entries δ,
      decodeText (jsonSerialize (requestEntry context
        (slayerLogSanitize (some (requestText parse))) responseCode nbytesSent timeToservice :
          JsonValue δ) ++ bytes "\n") = some (.object entries) ∧
      objectGet entries (bytes "method") = some (.string (methodText parse.method)) ∧
      objectGet entries (bytes "path") = some (.string (parse.uriData.map sanitizeByte)) := by
  have hnewline : Blank (bytes "\n") := by
    intro c hc
    obtain rfl := List.mem_singleton.mp hc
    decide
  have hmethod : cstr (methodText parse.method) = methodText parse.method := by
    cases parse.method <;> rfl
  have hpath : cstr (parse.uriData.map sanitizeByte) = parse.uriData.map sanitizeByte := by
    apply cstr_of_nulFree
    intro hzero
    obtain ⟨c, -, hc⟩ := List.mem_map.mp hzero
    exact sanitizeByte_ne_zero c hc
  have hflat := flatRecord_requestMembers (δ := δ) context (methodText parse.method)
    (parse.uriData.map sanitizeByte) responseCode nbytesSent timeToservice
  rw [requestEntry_requestText hfree hspace]
  refine ⟨_, (hflat.readsBack 63).decodeText_append hnewline, ?_, ?_⟩
  · rw [(objectGet_requestMembers ..).1, jsonStringCreate, hmethod]
  · rw [(objectGet_requestMembers ..).2, jsonStringCreate, hpath]

end Messages

/-! ## What is appended -/

theorem IsLine.nulFree {message : Bytes} (hline : IsLine message) : NulFree message := by
  obtain ⟨body, rfl, hclean⟩ := hline
  simp [hclean.nulFree]

theorem file_slayerServerLogMessage {manager : LogManager} {contents message : Bytes}
    (hfile : manager.file = some contents) (hline : IsLine message) :
    (slayerServerLogMessage manager message).file = some (contents ++ message) := by
  rw [slayerServerLogMessage, hfile, cstr_of_nulFree hline.nulFree]
  rfl

/-- Every call appends one line to the file. For a request that completed the parser, the
JSON form gives its method and its sanitized target back, and the plain form ends in the
code, the count of bytes and the time. -/
theorem logLines_unforgeable {δ : Type} [CDouble δ] (uriSize : Nat) (receives : List Bytes)
    (parse : RequestParse) (unread : Bytes)
    (hrun : runReceives (parseBufferInit uriSize) receives = .complete parse unread)
    (manager : LogManager) (contents : Bytes) (hfile : manager.file = some contents)
    (context : LogContext) (hip : Clean context.clientIp) (hgmt : Clean context.gmtDate)
    (hlocal : Clean context.localDate) (responseCode : Int32) (nbytesSent : UInt64)
    (timeToservice : Int64) (requestLine errorMessage : Option Bytes) :
    (∃ message, (slayerServerLogRequest δ manager context (some (requestText parse)) responseCode
        nbytesSent timeToservice).file = some (contents ++ message) ∧ IsLine message ∧
      (manager.jsonLogs = true → ∃ entries : Entries δ,
        decodeText message = some (.object entries) ∧
        (∀ size : Int32, size.toInt = strlen message →
          decodeJson message size = some (.object entries)) ∧
        objectGet entries (bytes "method") = some (.string (methodText parse.method)) ∧
        objectGet entries (bytes "path") = some (.string (parse.uriData.map sanitizeByte))) ∧
      (manager.jsonLogs = false → ∃ front code count time,
        message.dropLast.splitOn (ch ' ') = front ++ [code, count, time] ∧
        integerValue code = responseCode.toInt ∧ decimalValue count = nbytesSent.toNat ∧
        integerValue time = timeToservice.toInt)) ∧
    ∃ message, (slayerServerLogErrMessage δ manager context requestLine errorMessage).file =
      some (contents ++ message) ∧ IsLine message := by
  have huri := isUri_of_complete hrun
  have hfree := nulFree_of_isUri huri
  have hspace : ch ' ' ∉ parse.uriData := fun hmem => (huri.2.1 _ hmem).1 rfl
  refine ⟨?_, ?_⟩
  · have hline := clean_slayerLogSanitize (some (requestText parse))
    by_cases hjson : manager.jsonLogs = true
    · have hmessage : IsLine (jsonSerialize (requestEntry context
          (slayerLogSanitize (some (requestText parse))) responseCode nbytesSent timeToservice :
            JsonValue δ) ++ bytes "\n") :=
        ⟨_, rfl, clean_requestEntry hip hgmt hline _ _ _⟩
      obtain ⟨entries, hdecode, hmethod, hpath⟩ := decodeText_jsonLine (δ := δ) hfree hspace
        context responseCode nbytesSent timeToservice
      refine ⟨_, ?_, hmessage, fun _ => ⟨entries, hdecode, ?_, hmethod, hpath⟩, ?_⟩
      · rw [slayerServerLogRequest, if_pos hjson]
        exact file_slayerServerLogMessage hfile hmessage
      · intro size hsize
        rw [decodeJson_eq_decodeText hmessage.nulFree hsize, hdecode]
      · intro hplain
        simp [hjson] at hplain
    · have hmessage := isLine_plainLine hip hlocal hline responseCode nbytesSent timeToservice
      refine ⟨_, ?_, hmessage, fun htrue => absurd htrue hjson, fun _ => ?_⟩
      · rw [slayerServerLogRequest, if_neg hjson]
        exact file_slayerServerLogMessage hfile hmessage
      · refine ⟨_, _, _, _, splitOn_plainLine _ _ _ _ _, ?_, decimalValue_printNat _,
          (numberText_printLong _).2.2⟩
        rw [(numberText_printLong _).2.2, Int32.toInt_toInt64]
  · have hclean := clean_plainStart hip hlocal (clean_slayerLogSanitize requestLine)
    have hblank : Clean (bytes " ") := by decide
    have hline : IsLine (plainStart context (slayerLogSanitize requestLine) ++ bytes " " ++
        slayerLogSanitize errorMessage ++ bytes "\n") :=
      ⟨_, rfl, by simp [hclean, hblank, clean_slayerLogSanitize]⟩
    exact ⟨_, file_slayerServerLogMessage hfile hline, hline⟩

/-- A target with a newline in it does not begin a new line of the log. -/
theorem logLines_unforgeable_newline :
    ∃ parse manager message,
      runReceives (parseBufferInit 64) [bytes "GET /a\nb HTTP/1.0\n\n"] = .complete parse [] ∧
      slayerServerLogOpen (fun _ => some []) (some (bytes "log")) 1 (by decide) = some manager ∧
      (slayerServerLogRequest Bytes manager ⟨bytes "::1", 0, bytes "now", bytes "now"⟩
        (some (requestText parse)) 200 7 90).file = some message ∧
      IsLine message ∧ message = bytes "::1 - - [now] \"GET /a_b HTTP/1.0\" 200 7 90\n" := by
  have hempty : ((slayerServerLogOpen (fun _ => some []) (some (bytes "log")) 1
      (by decide)).get rfl).file = some [] := rfl
  have hlines := logLines_unforgeable (δ := Bytes) 64 [bytes "GET /a\nb HTTP/1.0\n\n"] _ [] rfl _ []
    hempty ⟨bytes "::1", 0, bytes "now", bytes "now"⟩ (by decide) (by decide) (by decide) 200 7 90
    none none
  obtain ⟨⟨message, hfile, hline, -⟩, -⟩ := hlines
  refine ⟨_, _, message, rfl, rfl, hfile, hline, ?_⟩
  refine Option.some.inj (hfile.symm.trans ?_)
  decide +kernel

end DbSlayer.Server
