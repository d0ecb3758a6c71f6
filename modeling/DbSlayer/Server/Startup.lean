import DbSlayer.CLib.Numbers
import DbSlayer.Server.Token

/-! # Starting the server

The arguments of the program are read by three loops: one for the long options, one
for the flags of one letter, and the one of the database service. A fourth loop
writes them down for `/stats/args`, and hides what stands behind an option that takes
a token.
-/

namespace DbSlayer.Server

open DbSlayer.Http

/-! ## The loops -/

/-- What `slayer_server_parse_args` sets. -/
structure Options where
  hostname : Option Bytes
  debug : Option Bytes
  basedir : Option Bytes
  logfile : Option Bytes
  elogfile : Option Bytes
  jsonLogs : Bool
  threadCount : Int32
  port : Int32
  socketTimeout : Int32
  nslice : Int32
  tslice : Int32
  authToken : Option Bytes
  tlsCert : Option Bytes
  tlsKey : Option Bytes
  tlsPort : Int32
deriving DecidableEq, Repr

/-- The values that `slayer_server_run` starts with. -/
def Options.initial : Options where
  hostname := none
  debug := none
  basedir := none
  logfile := none
  elogfile := none
  jsonLogs := false
  threadCount := 1
  port := 9090
  socketTimeout := 2 * 1000 * 1000
  nslice := 60 * 24
  tslice := 60
  authToken := none
  tlsCert := none
  tlsKey := none
  tlsPort := 0

/-- Why the program does not come to serve. `undefined` stands for a null pointer that is
read as a number, and for an overflow. -/
inductive Stop where
  | usage
  | version
  | error (message : Bytes)
  | undefined
deriving DecidableEq, Repr

/-- What the program finds around it: the files and the environment. -/
structure Surroundings where
  file : Bytes → Option Bytes
  getenv : String → Option Bytes

def atoi (s : Bytes) : Int32 := (strtol s).1.toInt32

/-- `atoi` of an argument that may not be there. -/
def atoiArg : Option Bytes → Except Stop Int32
  | none => .error .undefined
  | some s => .ok (atoi s)

/-- Seconds as microseconds, in an `int`. -/
def microseconds (seconds : Int32) : Except Stop Int32 :=
  let product := seconds.toInt * 1000 * 1000
  if -2 ^ 31 ≤ product ∧ product < 2 ^ 31 then .ok (Int32.ofInt product) else .error .undefined

/-- A long option and the argument behind it; none for any other argument. -/
def takeOption (surroundings : Surroundings) (arg operand : Bytes) (options : Options) :
    Option (Except Stop Options) :=
  if strcmp arg (bytes "--auth-token") = 0 then
    some (.ok { options with authToken := some operand })
  else if strcmp arg (bytes "--auth-token-file") = 0 then
    match slayerServerReadAuthTokenFile operand (surroundings.file operand) with
    | .error message => some (.error (.error message))
    | .ok token => some (.ok { options with authToken := some token })
  else if strcmp arg (bytes "--tls-cert") = 0 then
    some (.ok { options with tlsCert := some operand })
  else if strcmp arg (bytes "--tls-key") = 0 then some (.ok { options with tlsKey := some operand })
  else if strcmp arg (bytes "--tls-port") = 0 then
    some (.ok { options with tlsPort := atoi operand })
  else none

/-- The first loop. The argument that an option takes is not looked at again. -/
def longOptions (surroundings : Surroundings) : List Bytes → Options → Except Stop Options
  | [], options => .ok options
  | [_], options => .ok options
  | arg :: operand :: rest, options =>
      match takeOption surroundings arg operand options with
      | some result => do longOptions surroundings rest (← result)
      | none => longOptions surroundings (operand :: rest) options

/-- `extra_arg`. -/
def extraArg : List Bytes → Option Bytes
  | [] => none
  | arg :: _ => if arg.head? ≠ some (ch '-') then some arg else none

/-- The switch over the letter of a flag. -/
def setFlag (letter : Byte) (extra : Option Bytes) (options : Options) : Except Stop Options :=
  if letter = ch '?' then .error .usage
  else if letter = ch 'b' then .ok { options with basedir := extra }
  else if letter = ch 'd' then .ok { options with debug := extra }
  else if letter = ch 'e' then .ok { options with elogfile := extra }
  else if letter = ch 'h' then .ok { options with hostname := extra }
  else if letter = ch 'l' then .ok { options with logfile := extra }
  else if letter = ch 'j' then .ok { options with jsonLogs := true }
  else if letter = ch 'p' then do return { options with port := ← atoiArg extra }
  else if letter = ch 't' then do return { options with threadCount := ← atoiArg extra }
  else if letter = ch 'w' then do
    let seconds ← atoiArg extra
    let timeout ← microseconds (if seconds = 0 then 10 else seconds)
    return { options with socketTimeout := timeout }
  else if letter = ch 'n' then do
    let count ← atoiArg extra
    return { options with nslice := if count = 0 then 60 * 24 else count }
  else if letter = ch 'i' then do
    let seconds ← atoiArg extra
    return { options with tslice := if seconds = 0 then 60 else seconds }
  else if letter = ch 'k' then
    match extra with
    | none => .ok options
    | some token => .ok { options with authToken := some token }
  else if letter = ch 'v' then .error .version
  else .ok options

/-- A minus and a letter. -/
def isFlag (arg : Bytes) : Bool := arg.head? = some (ch '-') && strlen arg = 2

/-- The second loop, which looks at every argument. -/
def shortOptions : List Bytes → Options → Except Stop Options
  | [], options => .ok options
  | arg :: rest, options =>
      if isFlag arg then do
        let options ← setFlag (arg.getD 1 0) (extraArg rest) options
        shortOptions rest options
      else shortOptions rest options

def environmentToken (surroundings : Surroundings) (options : Options) : Options :=
  if options.authToken = none then
    { options with authToken := surroundings.getenv "DBSLAYER_AUTH_TOKEN" }
  else options

def defaultTlsPort (options : Options) : Options :=
  if options.tlsCert ≠ none ∧ options.tlsPort = 0 then { options with tlsPort := 9443 }
  else options

/-- What `slayer_server_parse_args` tests behind its loops. -/
def checkOptions (options : Options) : Except Stop Options :=
  if options.tlsCert.isNone ≠ options.tlsKey.isNone then
    .error (.error (bytes "dbslayer: --tls-cert and --tls-key must be specified together\n"))
  else if options.threadCount = 0 ∨ options.port = 0 then .error .usage
  else .ok options

/-- The arguments are those behind the name of the program. -/
def slayerServerParseArgs (surroundings : Surroundings) (args : List Bytes) :
    Except Stop Options := do
  let options ← longOptions surroundings args .initial
  let options ← shortOptions args options
  checkOptions (defaultTlsPort (environmentToken surroundings options))

/-! ## What is made of them elsewhere -/

/-- What `db_global_init` keeps. -/
structure DbslayerConfig where
  server : Option Bytes
  multiserver : Option Bytes
  configure : Option Bytes
  username : Option Bytes
  password : Option Bytes
deriving DecidableEq, Repr

def setDbOption (arg : Bytes) (next : Option Bytes) (config : DbslayerConfig) : DbslayerConfig :=
  match next with
  | none => config
  | some operand =>
      if arg.head? = some (ch '-') then
        if arg.getD 1 0 = ch 's' then { config with server := some operand }
        else if arg.getD 1 0 = ch 'c' then { config with configure := some operand }
        else if arg.getD 1 0 = ch 'm' then { config with multiserver := some operand }
        else config
      else config

/-- The loop of `db_global_init`. -/
def dbOptions : List Bytes → DbslayerConfig → DbslayerConfig
  | [], config => config
  | arg :: rest, config => dbOptions rest (setDbOption arg rest.head? config)

def dbGlobalInit (surroundings : Surroundings) (argv : List Bytes) :
    Except Stop DbslayerConfig :=
  let config := dbOptions argv ⟨none, none, none, none, none⟩
  let config :=
    { config with
      username := surroundings.getenv "DBSLAYER_DB_USER"
      password := surroundings.getenv "DBSLAYER_DB_PASS" }
  if (config.server = none ∧ config.multiserver = none) ∨ config.configure = none then
    .error (.error (bytes ("Failed to configure dbslayer - [-s server[:server] or " ++
      "-m server[:server] ] and -c configure are required arguments; credentials come from " ++
      "the MySQL config file or DBSLAYER_DB_USER/DBSLAYER_DB_PASS\n")))
  else .ok config

/-- The options in front of a value that is not shown. -/
def hidesNext (arg : Bytes) : Bool :=
  strcmp arg (bytes "-x") = 0 || strcmp arg (bytes "-k") = 0 ||
    strcmp arg (bytes "--auth-token") = 0

/-- The loop that writes `startup_args`, with the argument in front. -/
def startupLoop : (startupArgs previous : Option Bytes) → List Bytes → Option Bytes
  | startupArgs, _, [] => startupArgs
  | startupArgs, previous, arg :: rest =>
      let shown := if previous.any hidesNext then bytes "[redacted]" else arg
      let text :=
        match startupArgs with
        | none => shown
        | some text => text ++ bytes " " ++ shown
      startupLoop (some text) (some arg) rest

/-- The page of `/stats/args`. -/
def startupArgs (argv : List Bytes) : Option Bytes := startupLoop none none argv

/-! ## Arguments that are no options -/

/-- An argument that no loop takes for an option. -/
def Plain (arg : Bytes) : Prop := arg.head? ≠ some (ch '-')

/-- What compares equal to a string that is not empty starts with its first byte. -/
theorem exists_cons_of_strcmp {s t : Bytes} {c : Byte} (hc : c ≠ 0)
    (hsame : strcmp s (c :: t) = 0) : ∃ rest, s = c :: rest ∧ strcmp rest t = 0 := by
  cases s with
  | nil =>
      have hzero : c.toNat = 0 := by simpa [strcmp] using hsame
      exact absurd (UInt8.toNat_inj.mp hzero) hc
  | cons a rest =>
      rw [strcmp] at hsame
      split at hsame
      next heq =>
        obtain ⟨rfl, -⟩ := heq
        exact ⟨rest, rfl, hsame⟩
      next hne =>
        have heq : a = c := UInt8.toNat_inj.mp (by omega)
        exact absurd ⟨heq, heq ▸ hc⟩ hne

theorem Plain.strcmp_ne {arg : Bytes} (hplain : Plain arg) (option : String)
    (hdash : (bytes option).head? = some (ch '-')) : strcmp arg (bytes option) ≠ 0 := by
  intro hsame
  obtain ⟨rest, hoption⟩ : ∃ rest, bytes option = ch '-' :: rest := List.head?_eq_some_iff.mp hdash
  rw [hoption] at hsame
  obtain ⟨rest, rfl, -⟩ := exists_cons_of_strcmp (by decide) hsame
  exact hplain rfl

/-- The options of the first loop. -/
def longNames : List String :=
  ["--auth-token", "--auth-token-file", "--tls-cert", "--tls-key", "--tls-port"]

/-- The long options are found by their names only. -/
theorem takeOption_eq_none_iff (surroundings : Surroundings) (arg operand : Bytes)
    (options : Options) : takeOption surroundings arg operand options = none ↔
      ∀ name ∈ longNames, strcmp arg (bytes name) ≠ 0 := by
  simp only [longNames, List.forall_mem_cons, List.not_mem_nil, false_implies, implies_true,
    and_true]
  refine ⟨fun hnone => ?_, fun ⟨htoken, hfile, hcert, hkey, hport⟩ => ?_⟩
  · unfold takeOption at hnone
    split_ifs at hnone with htoken hfile hcert hkey hport
    · split at hnone <;> cases hnone
    · exact ⟨htoken, hfile, hcert, hkey, hport⟩
  · rw [takeOption, if_neg htoken, if_neg hfile, if_neg hcert, if_neg hkey, if_neg hport]

theorem Plain.takeOption {arg : Bytes} (hplain : Plain arg) (surroundings : Surroundings)
    (operand : Bytes) (options : Options) : takeOption surroundings arg operand options = none := by
  apply (takeOption_eq_none_iff _ _ _ _).mpr
  intro name hname
  have hdash : ∀ name ∈ longNames, (bytes name).head? = some (ch '-') := by decide
  exact hplain.strcmp_ne name (hdash name hname)

theorem Plain.isFlag {arg : Bytes} (hplain : Plain arg) : isFlag arg = false := by
  have hhead : ¬ arg.head? = some (ch '-') := hplain
  simp [Server.isFlag, hhead]

theorem Plain.hidesNext {arg : Bytes} (hplain : Plain arg) : hidesNext arg = false := by
  have hx := hplain.strcmp_ne "-x" (by decide)
  have hk := hplain.strcmp_ne "-k" (by decide)
  have htoken := hplain.strcmp_ne "--auth-token" (by decide)
  simp [Server.hidesNext, hx, hk, htoken]

/-- The option `-k` is one of the second loop alone, so the first one steps over it. -/
theorem takeOption_of_k {flag : Bytes} (hflag : strcmp flag (bytes "-k") = 0)
    (surroundings : Surroundings) (operand : Bytes) (options : Options) :
    takeOption surroundings flag operand options = none := by
  apply (takeOption_eq_none_iff _ _ _ _).mpr
  intro name hname hsame
  have hother : ∀ name ∈ longNames, strcmp (bytes "-k") (bytes name) ≠ 0 := by decide
  exact hother name hname (strcmp_order.eq_zero_trans (strcmp_order.eq_zero_comm hflag) hsame)

/-- The option `--auth-token` is one of the first loop alone: to the second one it is no flag,
as its second byte is a dash. -/
theorem isFlag_of_authToken {flag : Bytes} (hflag : strcmp flag (bytes "--auth-token") = 0) :
    isFlag flag = false ∧ flag.getD 1 0 = ch '-' := by
  have hname : bytes "--auth-token" = ch '-' :: ch '-' :: ch 'a' :: bytes "uth-token" := by decide
  rw [hname] at hflag
  obtain ⟨first, rfl, hfirst⟩ := exists_cons_of_strcmp (by decide) hflag
  obtain ⟨second, rfl, hsecond⟩ := exists_cons_of_strcmp (by decide) hfirst
  obtain ⟨rest, rfl, -⟩ := exists_cons_of_strcmp (by decide) hsecond
  refine ⟨?_, rfl⟩
  have hlength : strlen (ch '-' :: ch '-' :: ch 'a' :: rest) = strlen rest + 3 := by
    simp [strlen, cstr, ch]
  simp [isFlag, hlength]

theorem strcmp_of_isFlag {flag : Bytes} (hflag : isFlag flag = true)
    (hletter : flag.getD 1 0 = ch 'k') : strcmp flag (bytes "-k") = 0 := by
  simp only [isFlag, Bool.and_eq_true, decide_eq_true_eq] at hflag
  obtain ⟨hdash, hlength⟩ := hflag
  obtain ⟨rest, rfl⟩ := List.head?_eq_some_iff.mp hdash
  cases rest with
  | nil => exact absurd hletter (by decide)
  | cons c rest =>
      obtain rfl : c = ch 'k' := hletter
      have hrest : strlen rest = 0 := by simpa [strlen, cstr, ch] using hlength
      cases rest with
      | nil => decide
      | cons d rest =>
          have hzero : d = 0 := by
            by_contra hne
            simp [strlen, cstr, hne] at hrest
          subst hzero
          rfl

/-! ## A value in the place of another -/

section Swap

variable {front back : List Bytes} {flag token other : Bytes}

theorem longOptions_skip {surroundings : Surroundings} {arg : Bytes}
    (hnone : ∀ operand options, takeOption surroundings arg operand options = none)
    (rest : List Bytes) (options : Options) :
    longOptions surroundings (arg :: rest) options = longOptions surroundings rest options := by
  cases rest with
  | nil => rfl
  | cons operand rest => rw [longOptions, hnone]

/-- If the loop cannot tell two ends of the arguments apart, then neither can it behind the same
front. -/
theorem longOptions_append {surroundings : Surroundings} {rest rest' : List Bytes}
    (hsame : ∀ options, longOptions surroundings rest options =
      longOptions surroundings rest' options)
    (hbehind : ∀ arg options, longOptions surroundings (arg :: rest) options =
      longOptions surroundings (arg :: rest') options) (front : List Bytes) (options : Options) :
    longOptions surroundings (front ++ rest) options =
      longOptions surroundings (front ++ rest') options := by
  suffices hboth : ∀ (front : List Bytes) options,
      longOptions surroundings (front ++ rest) options =
        longOptions surroundings (front ++ rest') options ∧
      ∀ arg, longOptions surroundings (arg :: front ++ rest) options =
        longOptions surroundings (arg :: front ++ rest') options from (hboth front options).1
  intro front
  induction front with
  | nil => exact fun options => ⟨hsame options, fun arg => hbehind arg options⟩
  | cons operand front ih =>
      refine fun options => ⟨(ih options).2 operand, fun arg => ?_⟩
      simp only [List.cons_append, longOptions]
      cases takeOption surroundings arg operand options with
      | none => exact (ih options).2 operand
      | some result =>
          cases result with
          | error stop => rfl
          | ok next => exact (ih next).1

theorem longOptions_swap (hflag : strcmp flag (bytes "-k") = 0) (htoken : Plain token)
    (hother : Plain other) (surroundings : Surroundings) (options : Options) :
    longOptions surroundings (front ++ flag :: token :: back) options =
      longOptions surroundings (front ++ flag :: other :: back) options := by
  have hvalue : ∀ options, longOptions surroundings (token :: back) options =
      longOptions surroundings (other :: back) options := by
    intro options
    rw [longOptions_skip (htoken.takeOption surroundings),
      longOptions_skip (hother.takeOption surroundings)]
  have hsame : ∀ options, longOptions surroundings (flag :: token :: back) options =
      longOptions surroundings (flag :: other :: back) options := by
    intro options
    rw [longOptions_skip (takeOption_of_k hflag surroundings),
      longOptions_skip (takeOption_of_k hflag surroundings), hvalue]
  apply longOptions_append hsame
  intro arg options
  simp only [longOptions]
  cases takeOption surroundings arg flag options with
  | none => exact hsame options
  | some result =>
      cases result with
      | error stop => rfl
      | ok next => exact hvalue next

theorem shortOptions_swap (hflag : isFlag flag = false) (htoken : Plain token)
    (hother : Plain other) (options : Options) :
    shortOptions (front ++ flag :: token :: back) options =
      shortOptions (front ++ flag :: other :: back) options := by
  induction front generalizing options with
  | nil => simp [shortOptions, hflag, htoken.isFlag, hother.isFlag]
  | cons arg front ih =>
      have hextra : extraArg (front ++ flag :: token :: back) =
          extraArg (front ++ flag :: other :: back) := by cases front <;> rfl
      simp only [List.cons_append, shortOptions, hextra, ih]

theorem dbOptions_swap (hletter : ∀ next config, setDbOption flag next config = config)
    (htoken : Plain token) (hother : Plain other) (config : DbslayerConfig) :
    dbOptions (front ++ flag :: token :: back) config =
      dbOptions (front ++ flag :: other :: back) config := by
  have hplain : ∀ arg, Plain arg → ∀ next config, setDbOption arg next config = config := by
    intro arg harg next config
    cases next with
    | none => rfl
    | some operand => exact if_neg harg
  induction front generalizing config with
  | nil => simp [dbOptions, hletter, hplain token htoken, hplain other hother]
  | cons arg front ih =>
      have hnext : (front ++ flag :: token :: back).head? =
          (front ++ flag :: other :: back).head? := by cases front <;> rfl
      simp only [List.cons_append, dbOptions, hnext, ih]

theorem startupLoop_swap (hflag : hidesNext flag = true) (htoken : Plain token)
    (hother : Plain other) (text previous : Option Bytes) :
    startupLoop text previous (front ++ flag :: token :: back) =
      startupLoop text previous (front ++ flag :: other :: back) := by
  induction front generalizing text previous with
  | nil =>
      simp only [List.nil_append, startupLoop, Option.any_some, hflag, if_true]
      cases back with
      | nil => rfl
      | cons arg back => simp [startupLoop, htoken.hidesNext, hother.hidesNext]
  | cons arg front ih => simp only [List.cons_append, startupLoop, ih]

end Swap

/-! ## Where the token comes from -/

def Options.withToken (options : Options) (token : Option Bytes) : Options :=
  { options with authToken := token }

@[simp] theorem Options.withToken_withToken (options : Options) (token other : Option Bytes) :
    (options.withToken token).withToken other = options.withToken other := rfl

theorem Options.withToken_self (options : Options) :
    options.withToken options.authToken = options := rfl

/-- A loop that leaves the token as it is. -/
def KeepsToken (loop : Options → Except Stop Options) (options last : Options) : Prop :=
  ∀ token, loop (options.withToken token) = .ok (last.withToken token)

/-- A loop that took the token behind an option, and would have taken any other plain
value there. -/
def TakesToken (loop : List Bytes → Options → Except Stop Options) (name : String)
    (args : List Bytes) (options last : Options) : Prop :=
  ∃ front flag token back, args = front ++ flag :: token :: back ∧
    strcmp flag (bytes name) = 0 ∧ last.authToken = some token ∧
    ∀ other, Plain other →
      loop (front ++ flag :: other :: back) options = .ok (last.withToken (some other))

/-- The token is the first line of a file that was named. -/
def ReadsToken (surroundings : Surroundings) (args : List Bytes) (last : Options) : Prop :=
  ∃ front flag path back token, args = front ++ flag :: path :: back ∧
    strcmp flag (bytes "--auth-token-file") = 0 ∧ last.authToken = some token ∧
    slayerServerReadAuthTokenFile path (surroundings.file path) = .ok token

/-- A loop that keeps the token ends with the one it started from. -/
theorem KeepsToken.authToken_eq {loop : Options → Except Stop Options} {options last : Options}
    (hkeeps : KeepsToken loop options last) (hloop : loop options = .ok last) :
    last.authToken = options.authToken := by
  have hsame := hkeeps options.authToken
  rw [options.withToken_self, hloop] at hsame
  have heq : last = last.withToken options.authToken := Except.ok.inj hsame
  rw [heq]
  rfl

/-- What one long option does to the token. -/
theorem takeOption_cases {surroundings : Surroundings} {arg operand : Bytes}
    {options next : Options}
    (htake : takeOption surroundings arg operand options = some (.ok next)) :
    (∀ token, takeOption surroundings arg operand (options.withToken token) =
        some (.ok (next.withToken token))) ∨
      (strcmp arg (bytes "--auth-token") = 0 ∧ next = options.withToken (some operand)) ∨
      (strcmp arg (bytes "--auth-token-file") = 0 ∧ ∃ token,
        next = options.withToken (some token) ∧
        slayerServerReadAuthTokenFile operand (surroundings.file operand) = .ok token) := by
  unfold takeOption at htake ⊢
  by_cases htoken : strcmp arg (bytes "--auth-token") = 0
  · rw [if_pos htoken] at htake
    cases htake
    exact .inr (.inl ⟨htoken, rfl⟩)
  rw [if_neg htoken] at htake
  by_cases hfile : strcmp arg (bytes "--auth-token-file") = 0
  · rw [if_pos hfile] at htake
    split at htake
    next => cases htake
    next token hread =>
      cases htake
      exact .inr (.inr ⟨hfile, token, rfl, hread⟩)
  -- the options of TLS
  refine .inl fun token => ?_
  rw [if_neg hfile] at htake
  rw [if_neg htoken, if_neg hfile]
  by_cases hcert : strcmp arg (bytes "--tls-cert") = 0
  · rw [if_pos hcert] at htake ⊢
    cases htake
    rfl
  rw [if_neg hcert] at htake ⊢
  by_cases hkey : strcmp arg (bytes "--tls-key") = 0
  · rw [if_pos hkey] at htake ⊢
    cases htake
    rfl
  rw [if_neg hkey] at htake ⊢
  by_cases hport : strcmp arg (bytes "--tls-port") = 0
  · rw [if_pos hport] at htake ⊢
    cases htake
    rfl
  rw [if_neg hport] at htake
  cases htake

/-- An option that was passed before the token was found does not matter for the token. -/
theorem TakesToken.behind {loop : List Bytes → Options → Except Stop Options} {name : String}
    {passed args : List Bytes} {options next last : Options}
    (hpass : ∀ args, loop (passed ++ args) options = loop args next)
    (htakes : TakesToken loop name args next last) :
    TakesToken loop name (passed ++ args) options last := by
  obtain ⟨front, flag, token, back, rfl, hflag, htoken, hother⟩ := htakes
  refine ⟨passed ++ front, flag, token, back, by simp, hflag, htoken, fun other hplain => ?_⟩
  rw [List.append_assoc, hpass]
  exact hother other hplain

/-- Arguments in front do not matter for where the token was read. -/
theorem ReadsToken.behind {surroundings : Surroundings} {args : List Bytes} {last : Options}
    (hreads : ReadsToken surroundings args last) (passed : List Bytes) :
    ReadsToken surroundings (passed ++ args) last := by
  obtain ⟨front, flag, path, back, token, rfl, hflag, htoken, hread⟩ := hreads
  exact ⟨passed ++ front, flag, path, back, token, by simp, hflag, htoken, hread⟩

/-- The first loop keeps the token or reads it from `--auth-token`, and the last such option
wins. -/
theorem longOptions_token {surroundings : Surroundings} {args : List Bytes}
    {options last : Options} (hloop : longOptions surroundings args options = .ok last) :
    KeepsToken (longOptions surroundings args) options last ∨
      TakesToken (longOptions surroundings) "--auth-token" args options last ∨
      ReadsToken surroundings args last := by
  fun_induction longOptions surroundings args options with
  | case1 options =>
      cases hloop
      exact .inl fun token => rfl
  | case2 arg options =>
      cases hloop
      exact .inl fun token => rfl
  | case3 arg operand rest options result htake ih =>
      cases result with
      | error stop => cases hloop
      | ok next =>
          have hpass : ∀ args, longOptions surroundings ([arg, operand] ++ args) options =
              longOptions surroundings args next := by
            intro args
            rw [List.cons_append, List.cons_append, List.nil_append, longOptions, htake]
            rfl
          obtain hkeeps | htakes | hreads := ih next hloop
          · have hlast := hkeeps.authToken_eq hloop
            obtain hsame | ⟨hflag, rfl⟩ | ⟨hflag, token, rfl, hread⟩ := takeOption_cases htake
            · refine .inl fun token => ?_
              rw [longOptions, hsame]
              exact hkeeps token
            · refine .inr (.inl ⟨[], arg, operand, rest, rfl, hflag, hlast, fun other _ => ?_⟩)
              rw [List.nil_append, longOptions, takeOption, if_pos hflag]
              exact hkeeps (some other)
            · exact .inr (.inr ⟨[], arg, operand, rest, token, rfl, hflag, hlast, hread⟩)
          · exact .inr (.inl (htakes.behind hpass))
          · exact .inr (.inr (hreads.behind [arg, operand]))
  | case4 arg operand rest options htake ih =>
      have hnone : ∀ operand options, takeOption surroundings arg operand options = none :=
        fun operand options => (takeOption_eq_none_iff surroundings arg operand options).mpr
          ((takeOption_eq_none_iff _ _ _ _).mp htake)
      have hpass : ∀ args, longOptions surroundings ([arg] ++ args) options =
          longOptions surroundings args options := fun args =>
        longOptions_skip hnone args options
      obtain hkeeps | htakes | hreads := ih hloop
      · refine .inl fun token => ?_
        rw [longOptions_skip hnone]
        exact hkeeps token
      · exact .inr (.inl (htakes.behind hpass))
      · exact .inr (.inr (hreads.behind [arg]))

theorem ite_eq_map {ε α : Type} {f : α → α} {c : Prop} [Decidable c] {a b a' b' : Except ε α}
    (hpos : c → a' = a.map f) (hneg : b' = b.map f) :
    (if c then a' else b') = (if c then a else b).map f := by
  split
  next hc => exact hpos hc
  next => exact hneg

theorem setFlag_withToken {letter : Byte} (hletter : letter ≠ ch 'k') (extra : Option Bytes)
    (options : Options) (token : Option Bytes) :
    setFlag letter extra (options.withToken token) =
      (setFlag letter extra options).map (·.withToken token) := by
  unfold setFlag
  iterate 7 refine ite_eq_map (fun _ => rfl) ?_
  -- the flags with a number
  iterate 2 refine ite_eq_map (fun _ => by cases extra <;> rfl) ?_
  refine ite_eq_map (fun _ => ?_) ?_
  · cases extra with
    | none => rfl
    | some operand =>
        change (microseconds _ >>= _) = Except.map _ (microseconds _ >>= _)
        cases microseconds (if atoi operand = 0 then 10 else atoi operand) <;> rfl
  iterate 2 refine ite_eq_map (fun _ => by cases extra <;> rfl) ?_
  refine ite_eq_map (fun hk => absurd hk hletter) ?_
  exact ite_eq_map (fun _ => rfl) rfl

/-- What one flag does to the token. -/
theorem setFlag_cases {letter : Byte} {extra : Option Bytes} {options next : Options}
    (hset : setFlag letter extra options = .ok next) :
    (∀ token, setFlag letter extra (options.withToken token) = .ok (next.withToken token)) ∨
      (letter = ch 'k' ∧ ∃ token, extra = some token ∧ next = options.withToken (some token)) := by
  by_cases hk : letter = ch 'k'
  · subst hk
    cases extra with
    | none =>
        cases hset
        exact .inl fun token => rfl
    | some token =>
        cases hset
        exact .inr ⟨rfl, token, rfl, rfl⟩
  · refine .inl fun token => ?_
    rw [setFlag_withToken hk, hset]
    rfl

theorem extraArg_of_plain {token : Bytes} (hplain : Plain token) (rest : List Bytes) :
    extraArg (token :: rest) = some token := if_pos hplain

/-- The extra argument is the next one, if it is plain. -/
theorem extraArg_eq_some {rest : List Bytes} {token : Bytes} (hextra : extraArg rest = some token) :
    Plain token ∧ ∃ back, rest = token :: back := by
  cases rest with
  | nil => cases hextra
  | cons arg back =>
      rw [extraArg] at hextra
      split at hextra
      next hplain =>
        cases hextra
        exact ⟨hplain, back, rfl⟩
      next => cases hextra

theorem shortOptions_flag {arg : Bytes} {rest : List Bytes} {options next : Options}
    (hflag : isFlag arg = true)
    (hset : setFlag (arg.getD 1 0) (extraArg rest) options = .ok next) :
    shortOptions (arg :: rest) options = shortOptions rest next := by
  rw [shortOptions, if_pos hflag, hset]
  rfl

theorem shortOptions_skip {arg : Bytes} (hflag : isFlag arg = false) (rest : List Bytes)
    (options : Options) : shortOptions (arg :: rest) options = shortOptions rest options := by
  rw [shortOptions, hflag]
  rfl

/-- The second loop keeps the token or reads it behind `-k`, so a short option wins over a
long one. -/
theorem shortOptions_token {args : List Bytes} {options last : Options}
    (hloop : shortOptions args options = .ok last) :
    KeepsToken (shortOptions args) options last ∨
      TakesToken shortOptions "-k" args options last := by
  induction args generalizing options with
  | nil =>
      cases hloop
      exact .inl fun token => rfl
  | cons arg rest ih =>
      cases hflag : isFlag arg with
      | false =>
          rw [shortOptions_skip hflag] at hloop
          obtain hkeeps | htakes := ih hloop
          · refine .inl fun token => ?_
            rw [shortOptions_skip hflag]
            exact hkeeps token
          · have hbehind : TakesToken shortOptions "-k" ([arg] ++ rest) options last :=
              htakes.behind fun args => shortOptions_skip hflag args options
            exact .inr hbehind
      | true =>
          cases hset : setFlag (arg.getD 1 0) (extraArg rest) options with
          | error stop =>
              rw [shortOptions, if_pos hflag, hset] at hloop
              cases hloop
          | ok next =>
              rw [shortOptions_flag hflag hset] at hloop
              obtain hkeeps | ⟨front, flag, token, back, rfl, hname, htoken, hother⟩ := ih hloop
              · have hlast := hkeeps.authToken_eq hloop
                obtain hsame | ⟨hletter, token, hextra, rfl⟩ := setFlag_cases hset
                · refine .inl fun token => ?_
                  rw [shortOptions_flag hflag (hsame token)]
                  exact hkeeps token
                -- the value is looked at again, and is not a flag
                · obtain ⟨hplain, back, rfl⟩ := extraArg_eq_some hextra
                  refine .inr ⟨[], arg, token, back, rfl, strcmp_of_isFlag hflag hletter, hlast,
                    fun other hother => ?_⟩
                  have hset' : setFlag (arg.getD 1 0) (extraArg (other :: back)) options =
                      .ok (options.withToken (some other)) := by
                    rw [hletter, extraArg_of_plain hother]
                    rfl
                  have hrest := hkeeps (some other)
                  rw [shortOptions_skip hplain.isFlag] at hrest
                  rw [List.nil_append, shortOptions_flag hflag hset',
                    shortOptions_skip hother.isFlag]
                  exact hrest
              · refine .inr ⟨arg :: front, flag, token, back, rfl, hname, htoken,
                  fun other hplain => ?_⟩
                have hextra : extraArg (front ++ flag :: other :: back) =
                    extraArg (front ++ flag :: token :: back) := by cases front <;> rfl
                rw [← hextra] at hset
                rw [List.cons_append, shortOptions_flag hflag hset]
                exact hother other hplain

theorem defaultTlsPort_withToken (options : Options) (token : Option Bytes) :
    defaultTlsPort (options.withToken token) = (defaultTlsPort options).withToken token := by
  unfold defaultTlsPort
  by_cases hport : options.tlsCert ≠ none ∧ options.tlsPort = 0
  · rw [if_pos hport]
    exact if_pos hport
  · rw [if_neg hport]
    exact if_neg hport

theorem defaultTlsPort_authToken (options : Options) :
    (defaultTlsPort options).authToken = options.authToken := by
  unfold defaultTlsPort
  split <;> rfl

theorem checkOptions_withToken (options : Options) (token : Option Bytes) :
    checkOptions (options.withToken token) = (checkOptions options).map (·.withToken token) := by
  unfold checkOptions
  exact ite_eq_map (fun _ => rfl) (ite_eq_map (fun _ => rfl) rfl)

theorem checkOptions_eq {options last : Options} (hcheck : checkOptions options = .ok last) :
    last = options := by
  unfold checkOptions at hcheck
  split at hcheck
  next => cases hcheck
  next =>
    split at hcheck
    next => cases hcheck
    next => exact (Except.ok.inj hcheck).symm

/-- What comes behind the loops, for a token that they have found. -/
theorem finish_withToken {surroundings : Surroundings} {options last : Options} {token : Bytes}
    (htoken : options.authToken = some token)
    (hcheck : checkOptions (defaultTlsPort (environmentToken surroundings options)) = .ok last)
    (other : Bytes) :
    checkOptions (defaultTlsPort (environmentToken surroundings
      (options.withToken (some other)))) = .ok (last.withToken (some other)) := by
  have hsome : environmentToken surroundings options = options := if_neg (by simp [htoken])
  have hother : environmentToken surroundings (options.withToken (some other)) =
      options.withToken (some other) := if_neg nofun
  rw [hsome] at hcheck
  rw [hother, defaultTlsPort_withToken, checkOptions_withToken, hcheck]
  rfl

/-- All of the parsing succeeds exactly when both loops do and the checks let their result
pass, with the environment's token and the default port in between. -/
theorem slayerServerParseArgs_eq_ok {surroundings : Surroundings} {args : List Bytes}
    {options : Options} : slayerServerParseArgs surroundings args = .ok options ↔
      ∃ long short, longOptions surroundings args .initial = .ok long ∧
        shortOptions args long = .ok short ∧
        checkOptions (defaultTlsPort (environmentToken surroundings short)) = .ok options := by
  unfold slayerServerParseArgs
  refine ⟨fun hparse => ?_, fun ⟨long, short, hlong, hshort, hcheck⟩ => ?_⟩
  · cases hlong : longOptions surroundings args .initial with
    | error stop =>
        rw [hlong] at hparse
        cases hparse
    | ok long =>
        rw [hlong] at hparse
        change (shortOptions args long >>= _) = _ at hparse
        cases hshort : shortOptions args long with
        | error stop =>
            rw [hshort] at hparse
            cases hparse
        | ok short =>
            rw [hshort] at hparse
            exact ⟨long, short, rfl, hshort, hparse⟩
  · rw [hlong]
    change (shortOptions args long >>= _) = _
    rw [hshort]
    exact hcheck

theorem setDbOption_of_letter {flag : Bytes}
    (hletter : flag.getD 1 0 ∉ [ch 's', ch 'c', ch 'm']) (next : Option Bytes)
    (config : DbslayerConfig) : setDbOption flag next config = config := by
  simp only [List.mem_cons, List.not_mem_nil, or_false, not_or] at hletter
  obtain ⟨hs, hc, hm⟩ := hletter
  cases next with
  | none => rfl
  | some operand => simp only [setDbOption, if_neg hs, if_neg hc, if_neg hm, ite_self]

/-- The two loops that read the arguments once more, for the database and for the startup text,
do not see the hidden token either. -/
theorem elsewhere_swap {front back : List Bytes} {flag token other : Bytes}
    (hflag : hidesNext flag = true) (hletter : flag.getD 1 0 ∉ [ch 's', ch 'c', ch 'm'])
    (htoken : Plain token) (hother : Plain other) (surroundings : Surroundings) (program : Bytes) :
    dbGlobalInit surroundings (program :: (front ++ flag :: other :: back)) =
        dbGlobalInit surroundings (program :: (front ++ flag :: token :: back)) ∧
      startupArgs (program :: (front ++ flag :: other :: back)) =
        startupArgs (program :: (front ++ flag :: token :: back)) := by
  constructor
  · unfold dbGlobalInit
    rw [← List.cons_append, ← List.cons_append,
      dbOptions_swap (setDbOption_of_letter hletter) hother htoken]
  · unfold startupArgs
    rw [← List.cons_append, ← List.cons_append, startupLoop_swap hflag hother htoken]

/-- Where the token of a server comes from. Behind an option of the command line it is hidden
from `/stats/args`, and any other token there starts the same server and the same database
service with the same page. -/
theorem startup_hides_token (surroundings : Surroundings) (program : Bytes) (args : List Bytes)
    (options : Options) (hparse : slayerServerParseArgs surroundings args = .ok options)
    (token : Bytes) (htoken : options.authToken = some token) :
    (∃ front flag back, args = front ++ flag :: token :: back ∧ hidesNext flag = true ∧
        (Plain token → ∀ other, Plain other →
          let args' := front ++ flag :: other :: back
          slayerServerParseArgs surroundings args' = .ok (options.withToken (some other)) ∧
            dbGlobalInit surroundings (program :: args') =
              dbGlobalInit surroundings (program :: args) ∧
            startupArgs (program :: args') = startupArgs (program :: args))) ∨
      ReadsToken surroundings args options ∨
      surroundings.getenv "DBSLAYER_AUTH_TOKEN" = some token := by
  obtain ⟨long, short, hlong, hshort, hcheck⟩ := slayerServerParseArgs_eq_ok.mp hparse
  have hlast : (environmentToken surroundings short).authToken = some token := by
    rw [← defaultTlsPort_authToken, ← checkOptions_eq hcheck, htoken]
  cases hfound : short.authToken with
  | none =>
      rw [environmentToken, if_pos hfound] at hlast
      exact .inr (.inr hlast)
  | some found =>
  rw [environmentToken, if_neg (by simp [hfound])] at hlast
  obtain hkeeps | ⟨front, flag, token', back, rfl, hflag, htoken', hother⟩ :=
    shortOptions_token hshort
  · have hsame := hkeeps.authToken_eq hshort
    rw [hlast] at hsame
    obtain hlongKeeps | ⟨front, flag, token', back, rfl, hflag, htoken', hother⟩ | hreads :=
      longOptions_token hlong
    · cases hsame.trans (hlongKeeps.authToken_eq hlong)
    · obtain rfl := Option.some.inj (htoken'.symm.trans hsame.symm)
      obtain ⟨hnot, hletter⟩ := isFlag_of_authToken hflag
      have hhides : hidesNext flag = true := by simp [hidesNext, hflag]
      refine .inl ⟨front, flag, back, rfl, hhides, fun hplain other hplain' => ⟨?_, ?_⟩⟩
      · apply slayerServerParseArgs_eq_ok.mpr
        refine ⟨_, _, hother other hplain', ?_, finish_withToken hfound hcheck other⟩
        rw [shortOptions_swap hnot hplain' hplain]
        exact hkeeps (some other)
      · exact elsewhere_swap hhides (by rw [hletter]; decide) hplain hplain' surroundings program
    · obtain ⟨front, flag, path, back, token', hargs, hflag, htoken', hread⟩ := hreads
      exact .inr (.inl ⟨front, flag, path, back, token', hargs, hflag,
        htoken.trans (hsame.trans htoken'), hread⟩)
  · obtain rfl := Option.some.inj (htoken'.symm.trans hlast)
    have hhides : hidesNext flag = true := by simp [hidesNext, hflag]
    have hletter : flag.getD 1 0 = ch 'k' := by
      have hname : bytes "-k" = ch '-' :: ch 'k' :: [] := by decide
      rw [hname] at hflag
      obtain ⟨rest, rfl, hrest⟩ := exists_cons_of_strcmp (by decide) hflag
      obtain ⟨rest, rfl, -⟩ := exists_cons_of_strcmp (by decide) hrest
      rfl
    refine .inl ⟨front, flag, back, rfl, hhides, fun hplain other hplain' => ⟨?_, ?_⟩⟩
    · apply slayerServerParseArgs_eq_ok.mpr
      refine ⟨long, _, ?_, hother other hplain', finish_withToken hfound hcheck other⟩
      rw [longOptions_swap hflag hplain' hplain]
      exact hlong
    · exact elsewhere_swap hhides (by rw [hletter]; decide) hplain hplain' surroundings program

/-- No files and an empty environment. -/
def bareSurroundings : Surroundings := ⟨fun _ => none, fun _ => none⟩

/-- A token behind `-k` is the one of the options, and the startup text does not have it. -/
theorem startup_hides_token_k :
    slayerServerParseArgs bareSurroundings [bytes "-k", bytes "secret"] =
        .ok (Options.initial.withToken (some (bytes "secret"))) ∧
      ∃ front flag back, [bytes "-k", bytes "secret"] = front ++ flag :: bytes "secret" :: back ∧
        hidesNext flag = true := by
  have hparse : slayerServerParseArgs bareSurroundings [bytes "-k", bytes "secret"] =
      .ok (Options.initial.withToken (some (bytes "secret"))) := by rfl
  refine ⟨hparse, ?_⟩
  obtain ⟨front, flag, back, hargs, hhides, -⟩ | hreads | hgetenv :=
    startup_hides_token bareSurroundings (bytes "dbslayer") _ _ hparse (bytes "secret") rfl
  · exact ⟨front, flag, back, hargs, hhides⟩
  · obtain ⟨front, flag, path, back, token, -, -, -, hread⟩ := hreads
    cases hread
  · cases hgetenv

end DbSlayer.Server
