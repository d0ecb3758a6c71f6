import DbSlayer.Db.Attribution

/-! # Which server a reply names

A reply names the server that was current before the query. The name is read
again only when an error is reported at once, so a replay that succeeds on
another server of the ring is reported under the old name.
-/

namespace DbSlayer.Db

open Foundation Json

variable {δ : Type} {mysql : Mysql} {timeout : Nat}

/-! ## The names in a reply -/

/-- Behind `withServer` there is a server, the one that was named first. -/
theorem outGet_withServer_self (out : Out δ) (name : Bytes) :
    outGet (withServer out name) "SERVER" =
      some ((outGet out "SERVER").getD (.string (some name))) := by
  unfold withServer
  rw [outHas_eq]
  cases hserver : outGet out "SERVER" with
  | none => simp [outGet_objectAdd_self]
  | some reply => simp [hserver]

/-- The entries that name a server. -/
def serverKeys : List String := ["SERVER", "SERVER_NAME"]

/-- The entry is missing or holds the name. -/
def CitesAt (out : Out δ) (key : String) (name : Bytes) : Prop :=
  outGet out key = none ∨ outGet out key = some (.string (some name))

/-- An object that names no server but one. -/
def Cites (out : Out δ) (name : Bytes) : Prop := ∀ key ∈ serverKeys, CitesAt out key name

/-- An object that names a server, and no other. -/
structure Signed (out : Out δ) (name : Bytes) : Prop where
  cites : Cites out name
  server : outGet out "SERVER" = some (.string (some name))

theorem cites_nil (name : Bytes) : Cites ([] : Out δ) name := fun _ _ => .inl rfl

/-- An entry that is no server cites nobody else. -/
theorem Cites.objectAdd {out : Out δ} {name : Bytes} (hcites : Cites out name) (key : String)
    (hother : ∀ used ∈ serverKeys, KeysDiffer used key) (reply : Reply δ) :
    Cites (objectAdd out key reply) name := by
  intro used hused
  rw [CitesAt, outGet_objectAdd_of_ne (hother used hused)]
  exact hcites used hused

theorem Signed.objectAdd {out : Out δ} {name : Bytes} (hsigned : Signed out name) (key : String)
    (hother : ∀ used ∈ serverKeys, KeysDiffer used key) (reply : Reply δ) :
    Signed (objectAdd out key reply) name := by
  refine ⟨hsigned.cites.objectAdd key hother reply, ?_⟩
  rw [outGet_objectAdd_of_ne (hother "SERVER" (by decide))]
  exact hsigned.server

/-- Naming the server signs a reply that cites nobody else. -/
theorem Cites.withServer {out : Out δ} {name : Bytes} (hcites : Cites out name) :
    Signed (withServer out name) name := by
  have hserver : outGet (DbSlayer.Db.withServer out name) "SERVER" =
      some (.string (some name)) := by
    rw [outGet_withServer_self]
    rcases hcites "SERVER" (by decide) with hnone | hname
    · rw [hnone, Option.getD_none]
    · rw [hname, Option.getD_some]
  refine ⟨?_, hserver⟩
  simp only [Cites, serverKeys, List.forall_mem_cons]
  refine ⟨.inr hserver, ?_, by simp⟩
  rw [CitesAt, outGet_withServer (by decide)]
  exact hcites "SERVER_NAME" (by decide)

/-- An error report is signed with the name it is given. -/
theorem Cites.errorReport {out : Out δ} {name : Bytes} (hcites : Cites out name)
    (error : MysqlError) (injson : JsonValue δ) (failed : Bool) :
    Signed (errorReport out error name injson failed) name := by
  have hsuccess := hcites.objectAdd "SUCCESS" (by decide) (.value (.boolean 0))
  have htext := hsuccess.objectAdd "MYSQL_ERROR" (by decide) (.string (some error.text))
  have hreport := htext.objectAdd "MYSQL_ERRNO" (by decide)
    (.value (.long (Int64.ofNat error.errno)))
  have hserver := hreport.withServer
  unfold DbSlayer.Db.errorReport
  dsimp only
  split
  · exact (hserver.objectAdd "ROLLBACK_ON_ERROR" (by decide) _).objectAdd
      "ROLLBACK_ON_ERROR_SUCCESS" (by decide) _
  · exact hserver

theorem Cites.dbReportError {out : Out δ} {name : Bytes} (hcites : Cites out name)
    (db : Option Token) (injson : JsonValue δ) (w : World) :
    Cites (result (dbReportError mysql out db name injson) w) name := by
  cases hnew : outHas out "MYSQL_ERROR" with
  | true =>
      rw [DbSlayer.Db.dbReportError, if_pos hnew]
      exact hcites
  | false =>
      rw [dbReportError_result hnew]
      exact (hcites.errorReport _ injson _).cites

/-- The other introspection flags name no server. -/
theorem Cites.answerFlag {out : Out δ} {name : Bytes} (hcites : Cites out name) (key : String)
    (hother : ∀ used ∈ serverKeys, KeysDiffer used key) (injson : JsonValue δ)
    (answer : Client (Reply δ)) (w : World) :
    Cites (result (answerFlag injson key answer out) w) name := by
  intro used hused
  rw [CitesAt, outGet_answerFlag (hother used hused)]
  exact hcites used hused

/-- `SERVER_NAME` answers with the name that the reply is signed with. -/
theorem Cites.serverName {out : Out δ} {name : Bytes} (hcites : Cites out name)
    (injson : JsonValue δ) (w : World) :
    Cites (result (DbSlayer.Db.answerFlag injson "SERVER_NAME"
      (return .string (some name)) out) w) name := by
  rw [DbSlayer.Db.answerFlag, result_ite]
  split
  · simp only [Cites, serverKeys, List.forall_mem_cons]
    refine ⟨?_, .inr (outGet_objectAdd_self _ _ _), by simp⟩
    rw [CitesAt, result_bind, result_pure, outGet_objectAdd_of_ne (by decide)]
    exact hcites "SERVER" (by decide)
  · exact hcites

/-- Everything behind the results keeps to the one name, the answer to `SERVER_NAME`
included. -/
theorem Cites.finishReply {out : Out δ} {name : Bytes} (hcites : Cites out name)
    (db : Option Token) (injson : JsonValue δ) (w : World) :
    Cites (result (finishReply mysql db name injson out) w) name := by
  have hmetadata : Cites (result (dbprocessMetadata mysql db injson out name) w) name := by
    simp only [dbprocessMetadata, result_bind]
    refine Cites.answerFlag (Cites.serverName ?_ injson _) "SLAYER_HELP" (by decide) injson _ _
    refine Cites.answerFlag ?_ "SLAYER_DEBUG_RETURN_INPUT" (by decide) injson _ _
    refine Cites.answerFlag ?_ "CLIENT_VERSION" (by decide) injson _ _
    refine Cites.answerFlag ?_ "SERVER_VERSION" (by decide) injson _ _
    refine Cites.answerFlag ?_ "HOST_INFO" (by decide) injson _ _
    refine Cites.answerFlag ?_ "CLIENT_INFO" (by decide) injson _ _
    exact Cites.answerFlag hcites "STAT" (by decide) injson _ _
  simp only [DbSlayer.Db.finishReply, result_bind, result_pure]
  split
  · exact hmetadata.objectAdd "ERROR" (by decide) _
  · exact hmetadata

variable [CDouble δ]

/-- The results are signed with the name that the query was sent under, also when an error of a
later statement is reported with them. -/
theorem signed_publishResults (db : Option Token) (name : Bytes) (injson : JsonValue δ)
    (w : World) : Signed (result (publishResults mysql db name injson) w) name := by
  have hloop : Cites (result (resultLoop mysql db name injson ((w.connection db).rest.length + 1)
      [] ⟨none, none⟩) w).1 name :=
    resultLoop_keeps (P := fun out => Cites out name)
      (fun _ hout => hout.objectAdd "RESULT" (by decide) .allResult)
      (fun _ w hout => hout.dbReportError db injson w) _ (cites_nil name) _ w
  generalize houtcome : result (resultLoop mysql db name injson
    ((w.connection db).rest.length + 1) [] ⟨none, none⟩) w = outcome at hloop
  have hcompleted : Signed (completed outcome name) name := by
    unfold completed
    split
    · exact (hloop.objectAdd "RESULT" (by decide) _).withServer
    · exact hloop.withServer
  constructor
  · intro key hkey
    rw [CitesAt, publishResults_result, houtcome]
    rcases hcompleted.cites key hkey with hnone | hname
    · exact .inl (by rw [hnone, Option.map_none])
    · exact .inr (by rw [hname, Option.map_some]; rfl)
  · rw [publishResults_result, houtcome, hcompleted.server]
    rfl

/-- A reply behind a query names one server: the one that was selected if the query
succeeded, or else the one that the handle has now. -/
theorem signed_dbexecute {handle : DbHandle} {injson : JsonValue δ} {db : Option Token}
    {dbserverName sql : Bytes} (hselect : selectServer handle injson = .server db dbserverName)
    (hsql : memberString injson "SQL" = some sql) (w : World) {handle' : DbHandle}
    {db' : Option Token} {ok : Bool}
    (hresult : result (queryOrReplay mysql timeout handle db dbserverName sql) w =
      (handle', db', ok)) :
    Signed (result (dbexecute mysql timeout handle injson) w).2
      (if ok then dbserverName else handle'.reportName dbserverName) := by
  simp only [dbexecute, hselect, hsql, result_bind, result_ite, result_pure, hresult]
  cases ok with
  | true =>
      have hsigned := @signed_publishResults δ mysql _ db' dbserverName injson
        (after (queryOrReplay mysql timeout handle db dbserverName sql) w)
      refine ⟨hsigned.cites.finishReply db' injson _, ?_⟩
      simp only [if_true]
      rw [outGet_finishReply (by decide) (by decide)]
      exact hsigned.server
  | false =>
      simp only [Bool.false_eq_true, if_false]
      rw [dbReportError_result (by rfl)]
      exact (cites_nil _).errorReport _ injson _

/-! ## The server that ran the query -/

/-- The handle that a query is sent on. -/
def Call.queried : Call → Option (Option Token)
  | query db _ _ => some db
  | _ => none

/-- The handle of the last query. -/
def lastQueried (calls : List Call) : Option (Option Token) :=
  (calls.filterMap Call.queried).getLast?

omit [CDouble δ] in
/-- Only a query changes which connection was queried last. -/
theorem lastQueried_append {calls : List Call} (hcalls : queries calls = 0) (first : List Call) :
    lastQueried (first ++ calls) = lastQueried first := by
  have hnone : calls.filterMap Call.queried = [] := by
    rw [List.filterMap_eq_nil_iff]
    intro call hcall
    have hquery := List.countP_eq_zero.mp hcalls call hcall
    cases call with
    | query db sql executed => exact absurd rfl hquery
    | _ => rfl
  rw [lastQueried, List.filterMap_append, hnone, List.append_nil]
  rfl

omit [CDouble δ] in
theorem lastQueried_query (first : List Call) (db : Option Token) (sql : Bytes) (executed : Bool) :
    lastQueried (first ++ [.query db sql executed]) = some db := by
  simp [lastQueried, Call.queried]

/-- The last query of these calls was sent on a connection to a server. -/
def RanOn (mysql : Mysql) (calls trace : List Call) (server : Bytes) : Prop :=
  ∃ t, lastQueried calls = some (some t) ∧ mysql.attempt t = .connected ∧ Grouped trace t server

/-- Every entry that names a server names this one. -/
def NamesServer (out : Out δ) (server : Bytes) : Prop :=
  ∀ key ∈ serverKeys, ∀ reply, outGet out key = some reply →
    ∃ name, reply = .string (some name) ∧ strcmp name server = 0

omit [CDouble δ] in
/-- A signed reply names one server, as `strcmp` compares. -/
theorem Signed.namesServer_iff {out : Out δ} {name : Bytes} (hsigned : Signed out name)
    (server : Bytes) : NamesServer out server ↔ strcmp name server = 0 := by
  constructor
  · intro hnames
    obtain ⟨name', hname, hsame⟩ := hnames "SERVER" (by decide) _ hsigned.server
    obtain rfl : name = name' := by simpa using hname
    exact hsame
  · intro hsame key hkey reply hreply
    rcases hsigned.cites key hkey with hnone | hname
    · simp [hnone] at hreply
    · exact ⟨name, Option.some.inj (hreply.symm.trans hname), hsame⟩

/-- A lost query is replayed with success, on a server of the ring with another name. -/
def Misnames (mysql : Mysql) (handle : DbHandle) (injson : JsonValue δ) (w : World) : Prop :=
  match selectServer handle injson, memberString injson "SQL" with
  | .server _ _, some _ =>
      handle.dblookup = none ∧ (nextQuery mysql w).lost = true ∧
        (mysql.query (queries w.trace + 1)).failed = false ∧
        ∃ i < handle.server.length, FirstConnected mysql (attempts w.trace) i ∧
          strcmp (handle.serverAt handle.serverOffset)
            (handle.serverAt ((handle.serverOffset + i) % handle.server.length)) ≠ 0
  | _, _ => False

omit [CDouble δ] in
/-- A request that is not refused is reported under the name it was sent under. -/
theorem selectServer_reportName {handle : DbHandle} {injson : JsonValue δ} {db : Option Token}
    {dbserverName : Bytes} (hselect : selectServer handle injson = .server db dbserverName) :
    handle.reportName dbserverName = dbserverName := by
  unfold selectServer at hselect
  split at hselect
  next => simp at hselect
  next name table _ hnamed =>
    rw [DbHandle.reportName, hnamed]
  next => simp at hselect
  next _ hsingle =>
    simp only [Selected.server.injEq] at hselect
    rw [DbHandle.reportName, hsingle]
    exact hselect.2

omit [CDouble δ] in
theorem FirstConnected.unique {start i j : Nat} (hi : FirstConnected mysql start i)
    (hj : FirstConnected mysql start j) : i = j := by
  rcases Nat.lt_trichotomy i j with hlt | heq | hlt
  · exact absurd hi.1 (hj.2 i hlt)
  · exact heq
  · exact absurd hj.1 (hi.2 j hlt)

omit [CDouble δ] in
/-- A query on a connection of the handle runs on the server that the handle names, with any
calls around it that set no option. -/
theorem Attributed.ranOn {handle : DbHandle} {w : World} (hattributed : Attributed mysql handle w)
    {calls trace : List Call} {name server : Bytes}
    (hlast : lastQueried calls = some (handle.current name))
    (holder : ∀ t server, handle.current name = some t → Grouped trace t server →
      Grouped w.trace t server)
    (hran : RanOn mysql calls trace server) : strcmp (handle.reportName name) server = 0 := by
  obtain ⟨t, hqueried, hconnected, hgrouped⟩ := hran
  have hcurrent : handle.current name = some t := Option.some.inj (hlast.symm.trans hqueried)
  exact hattributed.current name t server hcurrent hconnected (holder t server hcurrent hgrouped)

omit [CDouble δ] in
/-- A query on a connection that was just made under a name runs on the server of that name and
on no other. -/
theorem ranOn_iff {calls trace : List Call} {t : Token} {name : Bytes}
    (hlast : lastQueried calls = some (some t)) (hconnected : mysql.attempt t = .connected)
    (hgrouped : ∀ server, Grouped trace t server ↔ server = name) (server : Bytes) :
    RanOn mysql calls trace server ↔ server = name := by
  rw [← hgrouped]
  constructor
  · rintro ⟨t', hlast', -, hserver⟩
    obtain rfl : t = t' := by simpa [hlast] using hlast'
    exact hserver
  · intro hserver
    exact ⟨t, hlast, hconnected, hserver⟩

omit [CDouble δ] in
/-- A reattachment ends under the name it started with unless it moves to a server of the
ring with another name. -/
theorem ReattachNames.same_iff {handle handle' : DbHandle} {dbserverName : Bytes} {w w' : World}
    (hnames : ReattachNames mysql handle dbserverName w handle' true w')
    (hmode : handle'.dblookup.isSome = handle.dblookup.isSome)
    (hname : handle.reportName dbserverName = dbserverName) :
    strcmp dbserverName (handle'.reportName dbserverName) = 0 ↔
      ¬ (handle.dblookup = none ∧ ∃ i < handle.server.length,
        FirstConnected mysql (attempts w.trace) i ∧
          strcmp (handle.serverAt handle.serverOffset)
            (handle.serverAt ((handle.serverOffset + i) % handle.server.length)) ≠ 0) := by
  cases hsingle : handle.dblookup with
  | some table =>
      rw [hsingle, Option.isSome_some] at hmode
      obtain ⟨table', htable⟩ := Option.isSome_iff_exists.mp hmode
      rw [DbHandle.reportName, htable]
      simp [strcmp_order.self]
  | none =>
      obtain ⟨i, hi, hfirst, hattached⟩ := hnames.ring rfl hsingle
      have hselected : dbserverName = handle.serverAt handle.serverOffset := by
        rw [← hname, DbHandle.reportName, hsingle]
      rw [hattached, hselected]
      constructor
      · rintro hsame ⟨-, j, -, hother, hdiffers⟩
        obtain rfl := hfirst.unique hother
        exact hdiffers hsame
      · intro hno
        by_contra hdiffers
        exact hno ⟨rfl, i, hi, hfirst, hdiffers⟩

omit [CDouble δ] in
/-- Behind a query that is not replayed, only calls without options follow. -/
theorem Attributed.ranOn_unmoved {handle : DbHandle} {w : World}
    (hattributed : Attributed mysql handle w) {calls tail : List Call} {name server : Bytes}
    {db : Option Token} (hlast : lastQueried calls = some (handle.current name))
    (hoptions : ∀ call ∈ calls, call.isOptions = false) (htail : CallsOn db tail)
    (hran : RanOn mysql (calls ++ tail) (w.trace ++ (calls ++ tail)) server) :
    strcmp (handle.reportName name) server = 0 := by
  refine hattributed.ranOn ?_ ?_ hran
  · rw [lastQueried_append htail.queries, hlast]
  · intro t server _ hgrouped
    rwa [← List.append_assoc, grouped_append htail.options, grouped_append hoptions] at hgrouped

section Loss

variable {handle handle' : DbHandle} {w reached : World} {db db' : Option Token}
  {dbserverName sql server : Bytes} {tail calls : List Call}

omit [CDouble δ] in
/-- The server of a query whose connection was not replaced is the one it was sent to. -/
theorem Attributed.ranOn_stranded (hattributed : Attributed mysql handle w)
    (hinv : HandleInv handle w) (hcurrent : handle.current dbserverName = db)
    (hheld : ∀ t, db = some t → t ∈ handle.held)
    (hnames : ReattachNames mysql handle dbserverName (afterLoss mysql db sql w) handle' false
      reached)
    (hquiet : Quiet (afterLoss mysql db sql w) reached) (htail : CallsOn db' tail)
    (hcalls : reached.trace ++ tail = w.trace ++ calls)
    (hran : RanOn mysql calls (reached.trace ++ tail) server) :
    strcmp (handle'.reportName dbserverName) server = 0 := by
  obtain ⟨attempted, hattempted, -, hqueries⟩ := hquiet
  have hloss := @afterLoss_trace mysql db sql w
  rw [hnames.kept rfl]
  refine hattributed.ranOn ?_ (fun t server ht hgrouped => ?_) hran
  · rw [hattempted, hloss, List.append_assoc, List.append_assoc, List.append_cancel_left_eq]
      at hcalls
    rw [← hcalls, ← List.append_assoc, lastQueried_append htail.queries,
      lastQueried_append hqueries, hcurrent]
    rfl
  · -- the attempts set options for new handles only
    rw [grouped_append htail.options] at hgrouped
    have hlt : t < attempts (afterLoss mysql db sql w).trace := by
      rw [attempts_afterLoss]
      exact hinv.owned.lt_attempts (hheld t (hcurrent.symm.trans ht))
    have hold := hnames.older t server hlt hgrouped
    rwa [hloss, grouped_append (isOptions_query db sql _)] at hold

omit [CDouble δ] in
/-- The server of a replay is the one that the handle has now. -/
theorem ranOn_replayed {executed : Bool}
    (hnames : ReattachNames mysql handle dbserverName (afterLoss mysql db sql w) handle' true
      reached)
    (hquiet : Quiet (afterLoss mysql db sql w) reached) (htail : CallsOn db' tail)
    (hcalls : reached.trace ++ [.query (handle'.current dbserverName) sql executed] ++ tail =
      w.trace ++ calls) :
    RanOn mysql calls (w.trace ++ calls) server ↔
      server = handle'.reportName dbserverName := by
  obtain ⟨attempted, hattempted, -, -⟩ := hquiet
  obtain ⟨t, ht, hconnected, hgrouped⟩ := hnames.current rfl
  refine ranOn_iff ?_ hconnected ?_ server
  · rw [hattempted, afterLoss_trace, List.append_assoc, List.append_assoc, List.append_assoc,
      List.append_cancel_left_eq] at hcalls
    rw [← hcalls, ← List.append_assoc, ← List.append_assoc, lastQueried_append htail.queries,
      lastQueried_query, ht]
  · intro server
    rw [← hcalls, grouped_append htail.options, grouped_append (by simp [Call.isOptions]), hgrouped]

end Loss

/-- The name in the answer to a query is that of the server it ran on exactly when the handle was
not moved to another server in between, or the reply was written behind the move. -/
theorem namesServer_sql_iff {handle : DbHandle} {injson : JsonValue δ} {w : World}
    {db : Option Token} {dbserverName sql : Bytes} (hinv : HandleInv handle w)
    (hattributed : Attributed mysql handle w)
    (hselect : selectServer handle injson = .server db dbserverName)
    (hsql : memberString injson "SQL" = some sql) :
    (∀ server, RanOn mysql (requestCalls mysql timeout handle injson w)
        (after (dbexecute mysql timeout handle injson) w).trace server →
      NamesServer (result (dbexecute mysql timeout handle injson) w).2 server) ↔
      ¬ Misnames mysql handle injson w := by
  obtain ⟨hcurrent, hheld⟩ := selectServer_held hselect
  have hname := selectServer_reportName hselect
  have hnames := @afterLoss_names mysql timeout handle w hinv hattributed db dbserverName sql
  have hspec := dbHandleReattach_spec mysql timeout (hinv.afterLoss mysql db sql) dbserverName
  have hpath := queryOrReplay_path mysql timeout handle db dbserverName sql w
  generalize hresult : result (queryOrReplay mysql timeout handle db dbserverName sql) w = outcome
    at hpath
  generalize hafter : after (queryOrReplay mysql timeout handle db dbserverName sql) w = reached
    at hpath
  obtain ⟨handle', db', ok⟩ := outcome
  obtain ⟨-, tail, htail, hcalls, -⟩ := dbexecute_sql hselect hsql w hresult hafter
  have hsigned := signed_dbexecute hselect hsql w hresult
  have htrace : (after (dbexecute mysql timeout handle injson) w).trace =
      w.trace ++ requestCalls mysql timeout handle injson w := by
    obtain ⟨-, calls, happended, -⟩ := dbexecute_sql_live mysql timeout hinv hselect hsql
    rw [requestCalls_eq happended, happended]
  simp only [hsigned.namesServer_iff, Misnames, hselect, hsql]
  cases hpath with
  | ok hok =>
      rw [mysqlQuery_trace, List.append_assoc] at htail
      rw [requestCalls_eq htail, htail]
      refine ⟨fun _ hmisnames => ?_, fun _ server hran => ?_⟩
      · simp [lost_of_not_failed hok] at hmisnames
      · rw [if_pos rfl, ← hname]
        exact hattributed.ranOn_unmoved (hcurrent ▸ lastQueried_query [] db sql _)
          (by simp [Call.isOptions]) hcalls hran
  | refused _ hlost =>
      rw [afterLoss_trace, List.append_assoc] at htail
      rw [requestCalls_eq htail, htail]
      refine ⟨fun _ hmisnames => ?_, fun _ server hran => ?_⟩
      · simp [hlost] at hmisnames
      · rw [if_neg (by simp)]
        exact hattributed.ranOn_unmoved (hcurrent ▸ rfl) (isOptions_query db sql _) hcalls hran
  | stranded hlost houtcome =>
      rw [houtcome] at hnames hspec
      refine ⟨fun _ hmisnames => ?_, fun _ server hran => ?_⟩
      · obtain ⟨hsingle, -, -, i, hi, hfirst, -⟩ := hmisnames
        have hsucceeds : ReattachSucceeds mysql handle w := by
          rw [ReattachSucceeds, DbHandle.ringLength, hsingle]
          exact ⟨i, hi, hfirst.1⟩
        rw [← reattachSucceeds_afterLoss handle db sql w] at hsucceeds
        simpa using hspec.attached_iff.mpr hsucceeds
      · rw [if_neg (by simp)]
        rw [htail] at hran htrace
        exact hattributed.ranOn_stranded hinv hcurrent hheld hnames hspec.quiet hcalls htrace hran
  | @replayed _ reached hlost houtcome hreached =>
      rw [houtcome, hreached] at hnames hspec
      have hsecond := nextQuery_reattached (afterLoss_trace db sql w) hspec
      rw [mysqlQuery_trace] at htail
      have hcut := htail.symm.trans htrace
      simp only [htrace, ranOn_replayed hnames hspec.quiet hcalls hcut, forall_eq, hsecond, hlost,
        true_and]
      -- an error is reported under the new name, a result under the old one
      cases hreplay : (mysql.query (queries w.trace + 1)).failed with
      | true => simp [strcmp_order.self]
      | false =>
          simp only [Bool.not_false, if_true, true_and]
          rw [← attempts_afterLoss db sql w]
          exact hnames.same_iff hspec.mode hname

/-- After any start and any earlier requests, a reply names the server whose connection ran
the query exactly when no lost query is replayed with success on a server of the ring with
another name. -/
theorem dbexecute_names_server_iff (mysql : Mysql) (timeout : Nat) (user pass : Option Bytes)
    (server config : Bytes) (seed : Nat) (multidb : Bool) (earlier : List (JsonValue δ))
    (injson : JsonValue δ) :
    let start := started mysql timeout user pass server config seed multidb earlier
    let handle := result start World.start
    let w := after start World.start
    (∀ name, RanOn mysql (requestCalls mysql timeout handle injson w)
        (after (dbexecute mysql timeout handle injson) w).trace name →
      NamesServer (result (dbexecute mysql timeout handle injson) w).2 name) ↔
      ¬ Misnames mysql handle injson w := by
  intro start handle w
  have hinv : HandleInv handle w :=
    started_inv mysql timeout user pass server config seed multidb earlier
  have hattributed : Attributed mysql handle w :=
    started_attributed user pass server config seed multidb earlier
  cases hselect : selectServer handle injson with
  | refused out =>
      rw [requestCalls_refused hselect w]
      simp [RanOn, lastQueried, Misnames, hselect]
  | server db dbserverName =>
      cases hsql : memberString injson "SQL" with
      | none =>
          have htrace : (after (dbexecute mysql timeout handle injson) w).trace =
              w.trace ++ metadataCalls db injson := dbexecute_metadata_trace hselect hsql w
          have hcalls : CallsOn db (metadataCalls db injson) := callsOn_metadataCalls injson
          have hnone : lastQueried (metadataCalls db injson) = none :=
            lastQueried_append hcalls.queries []
          rw [requestCalls_eq htrace]
          simp [RanOn, hnone, Misnames, hselect, hsql]
      | some sql => exact namesServer_sql_iff hinv hattributed hselect hsql

/-- The string of an entry. -/
def Reply.name : Reply δ → Option Bytes
  | string text => text
  | _ => none

omit [CDouble δ] in
theorem outGet_of_name {out : Out δ} {key : String} {name : Bytes}
    (hname : (outGet out key).bind Reply.name = some name) :
    outGet out key = some (.string (some name)) := by
  obtain ⟨reply, hreply, hstring⟩ := Option.bind_eq_some_iff.mp hname
  rw [hreply]
  cases reply with
  | string value => rw [show value = some name from hstring]
  | value json => simp [Reply.name] at hstring
  | allResult => simp [Reply.name] at hstring

/-- Two servers, the first of which is lost after it was connected to. -/
def failoverServers : Mysql where
  attempt n := if n = 1 then .refused else .connected
  query n := if n = 0 then .error ⟨2013, bytes "Lost connection to MySQL server during query"⟩ false
    else .ok (.affected 0 0) .done
  rollback _ := true
  stat _ := none
  hostInfo _ := none
  serverVersion _ := 0
  clientInfo := []
  clientVersion := 0

/-- A query is lost on the first server and answered by the second, and the reply still names
the first. -/
theorem dbexecute_names_old_server :
    let start : Client DbHandle := started failoverServers 30 none none (bytes "east:west")
      (bytes "/etc/my.cnf") 0 false ([] : List (JsonValue Bytes))
    let handle := result start World.start
    let w := after start World.start
    RanOn failoverServers (requestCalls failoverServers 30 handle (sqlRequest "SELECT 1") w)
        (after (dbexecute failoverServers 30 handle (sqlRequest "SELECT 1")) w).trace
        (bytes "west") ∧
      outGet (result (dbexecute failoverServers 30 handle (sqlRequest "SELECT 1")) w).2 "SERVER" =
        some (.string (some (bytes "east"))) ∧
      ¬ NamesServer (result (dbexecute failoverServers 30 handle (sqlRequest "SELECT 1")) w).2
        (bytes "west") := by
  intro start handle w
  have hlast : lastQueried (requestCalls failoverServers 30 handle (sqlRequest "SELECT 1") w) =
      some (some 2) := by decide +kernel
  have hgrouped : Grouped
      (after (dbexecute failoverServers 30 handle (sqlRequest "SELECT 1")) w).trace 2
      (bytes "west") := by
    unfold Grouped
    decide +kernel
  have hname : (outGet (result (dbexecute failoverServers 30 handle (sqlRequest "SELECT 1")) w).2
      "SERVER").bind Reply.name = some (bytes "east") := by decide +kernel
  have hserver := outGet_of_name hname
  refine ⟨⟨2, hlast, rfl, hgrouped⟩, hserver, ?_⟩
  intro hnames
  obtain ⟨name, hreply, hsame⟩ := hnames "SERVER" (by decide) _ hserver
  obtain rfl : bytes "east" = name := by simpa using hreply
  exact absurd hsame (by decide)

end DbSlayer.Db
