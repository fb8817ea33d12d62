import MechanicalResearcher.NetchanAuth.Crypto

/-!
# The login conversation

`netchan-auth/demo/nc_auth.c`: the client and the server of the login, each fed whole
messages.  What a function hands to `emit` is the list of messages it returns, and a C
string is the bytes before its terminator.

The callbacks of the server may keep state of their own, so what they answer is an
argument of each `nc_auth_feed`.
-/

namespace MechanicalResearcher.NetchanAuth

def msgHello : UInt8 := 0x10
def msgMethods : UInt8 := 0x11
def msgPubkey : UInt8 := 0x12
def msgPassword : UInt8 := 0x13
def msgOk : UInt8 := 0x14
def msgFail : UInt8 := 0x15

def ncAuthMPubkey : UInt32 := 0x01
def ncAuthMPassword : UInt32 := 0x02

abbrev ncAuthMaxUser : Nat := 64
abbrev ncAuthMaxPass : Nat := 128
abbrev ncAuthMaxMsg : Nat := 256
abbrev ncAuthMaxTries : Nat := 6

/-- `SIG_LABEL` is hashed with its terminator. -/
def sigLabel : Bytes :=
  [0x6e, 0x65, 0x74, 0x63, 0x68, 0x61, 0x6e, 0x2d, 0x61, 0x75, 0x74, 0x68, 0x2d, 0x76, 0x31, 0]

/-- `NC_AUTH_*` -/
inductive AuthState
  | pending | ok | denied
  deriving DecidableEq, Repr

/-- `NC_AUTH_NEED_*` -/
inductive Need
  | nothing | key | password
  deriving DecidableEq, Repr

/-- What the callbacks answer during one call; `none` is a callback that is not set. -/
structure AuthServerCb where
  methods : Option (Bytes → UInt32)
  checkKey : Option (Bytes → Key → Bool)
  checkPassword : Option (Bytes → Bytes → Bool)

structure Auth where
  server : Bool
  state : AuthState
  need : Need
  greeted : Bool
  avail : UInt32
  tries : Nat
  sid : Key
  user : Bytes
  deriving DecidableEq

/-- The string that starts at a buffer. -/
def cString (p : Bytes) : Bytes := p.takeWhile (· ≠ 0)

variable (M : Monocypher)

def ncAuthSignedDigest (sid : Key) (user : Bytes) (pk : Key) : Key :=
  let n := min user.length ncAuthMaxUser
  M.blake2b (sigLabel ++ sid.toList ++ [UInt8.ofNat n] ++ user.take n ++ pk.toList)

def ncAuthClientInit (sid : Key) (user : Option Bytes) : Auth where
  server := false
  state := .pending
  need := .nothing
  greeted := false
  avail := 0
  tries := 0
  sid := sid
  user := (cString (user.getD [])).take ncAuthMaxUser

def ncAuthServerInit (sid : Key) : Auth where
  server := true
  state := .pending
  need := .nothing
  greeted := false
  avail := 0
  tries := 0
  sid := sid
  user := []

def ncAuthStart (a : Auth) : List Bytes :=
  if a.server = true ∨ a.state ≠ .pending then []
  else [msgHello :: UInt8.ofNat a.user.length :: a.user]

def ncAuthNeeds (a : Auth) : Need := a.need

def clientTryNext (a : Auth) : Auth :=
  if a.state ≠ .pending then a
  else if a.avail &&& ncAuthMPubkey ≠ 0 then
    { a with avail := a.avail &&& ~~~ncAuthMPubkey, need := .key }
  else if a.avail &&& ncAuthMPassword ≠ 0 then
    { a with avail := a.avail &&& ~~~ncAuthMPassword, need := .password }
  else { a with need := .nothing, state := .denied }

def ncAuthSupplyKey (a : Auth) (sk : Option (Vector UInt8 64)) (pk : Option Key) :
    Auth × List Bytes :=
  if a.server = true ∨ a.need ≠ .key then (a, [])
  else
    let a := { a with need := .nothing }
    match sk, pk with
    | some sk, some pk =>
      let digest := ncAuthSignedDigest M a.sid a.user pk
      (a, [msgPubkey :: pk.toList ++ (M.eddsaSign sk digest.toList).toList])
    | _, _ => (clientTryNext a, [])

def ncAuthSupplyPassword (a : Auth) (password : Option Bytes) : Auth × List Bytes :=
  if a.server = true ∨ a.need ≠ .password then (a, [])
  else
    let a := { a with need := .nothing }
    match password with
    | none => (clientTryNext a, [])
    | some password =>
      let password := cString password
      if password.length > ncAuthMaxPass - 1 then (clientTryNext a, [])
      else (a, [msgPassword :: UInt8.ofNat password.length :: password])

/-- The client sends nothing while it is fed. -/
def clientFeed (a : Auth) (msg : Bytes) : Option Auth :=
  if msg.headD 0 = msgMethods then
    if msg.length ≠ 2 then none
    else
      let a := { a with avail := (msg.getD 1 0).toUInt32 }
      if a.avail = 0 then some { a with state := .denied }
      else some (clientTryNext a)
  else if msg.headD 0 = msgOk then some { a with state := .ok }
  else if msg.headD 0 = msgFail then
    if msg.length ≠ 2 then none
    else some (clientTryNext { a with avail := a.avail &&& (msg.getD 1 0).toUInt32 })
  else none

def serverReply (type : UInt8) (mask : UInt32) (hasArg : Bool) : Bytes :=
  if hasArg then [type, mask.toUInt8] else [type]

def serverDeny (a : Auth) (spent : UInt32) : Auth × List Bytes :=
  let a := { a with avail := a.avail &&& ~~~spent, tries := a.tries + 1 }
  let a :=
    if ncAuthMaxTries ≤ a.tries ∨ a.avail = 0 then { a with avail := 0, state := .denied } else a
  (a, [serverReply msgFail a.avail true])

def serverAccept (a : Auth) : Auth × List Bytes :=
  ({ a with state := .ok }, [serverReply msgOk 0 false])

/-- What `methods` answers for a name. -/
def offered (cb : AuthServerCb) (user : Bytes) : UInt32 :=
  match cb.methods with
  | none => 0
  | some methods => methods user

def serverHello (cb : AuthServerCb) (a : Auth) (msg : Bytes) : Option (Auth × List Bytes) :=
  if a.greeted = true ∨ msg.length < 2 then none
  else
    let ulen := (msg.getD 1 0).toNat
    if ulen > ncAuthMaxUser ∨ msg.length ≠ 2 + ulen then none
    else
      let user := cString (msg.drop 2)
      let a := { a with user := user, greeted := true, avail := offered cb user }
      let a := if a.avail = 0 then { a with state := .denied } else a
      some (a, [serverReply msgMethods a.avail true])

/-- The signature is good and `check_key` is set and not zero. -/
def keyAccepted (cb : AuthServerCb) (a : Auth) (msg : Bytes) : Bool :=
  let pk : Key := rdVector 32 (msg.drop 1)
  let sig := rdVector 64 (msg.drop 33)
  let digest := ncAuthSignedDigest M a.sid a.user pk
  M.eddsaCheck sig pk digest.toList &&
    match cb.checkKey with
    | none => false
    | some checkKey => checkKey a.user pk

def serverPubkey (cb : AuthServerCb) (a : Auth) (msg : Bytes) : Option (Auth × List Bytes) :=
  if a.greeted = false ∨ msg.length ≠ 1 + 32 + 64 then none
  else if a.avail &&& ncAuthMPubkey = 0 then some (serverDeny a 0)
  else if keyAccepted M cb a msg then some (serverAccept a)
  else some (serverDeny a ncAuthMPubkey)

def passwordAccepted (cb : AuthServerCb) (a : Auth) (msg : Bytes) : Bool :=
  match cb.checkPassword with
  | none => false
  | some checkPassword => checkPassword a.user (cString (msg.drop 2))

def serverPassword (cb : AuthServerCb) (a : Auth) (msg : Bytes) : Option (Auth × List Bytes) :=
  if a.greeted = false ∨ msg.length < 2 then none
  else
    let plen := (msg.getD 1 0).toNat
    if plen > ncAuthMaxPass - 1 ∨ msg.length ≠ 2 + plen then none
    else if a.avail &&& ncAuthMPassword = 0 then some (serverDeny a 0)
    else if passwordAccepted cb a msg then some (serverAccept a)
    else some (serverDeny a ncAuthMPassword)

def serverFeed (cb : AuthServerCb) (a : Auth) (msg : Bytes) : Option (Auth × List Bytes) :=
  if msg.headD 0 = msgHello then serverHello cb a msg
  else if msg.headD 0 = msgPubkey then serverPubkey M cb a msg
  else if msg.headD 0 = msgPassword then serverPassword cb a msg
  else none

structure FedAuth where
  auth : Auth
  sent : List Bytes
  /-- the return value is 0, not -1 -/
  rc : Bool

def ncAuthFeed (cb : AuthServerCb) (a : Auth) (msg : Bytes) : FedAuth :=
  if msg.length < 1 ∨ msg.length > ncAuthMaxMsg ∨ a.state ≠ .pending then ⟨a, [], false⟩
  else
    let fed := if a.server then serverFeed M cb a msg
      else (clientFeed a msg).map fun a => (a, [])
    match fed with
    | none => ⟨{ a with state := .denied }, [], false⟩
    | some (a, sent) => ⟨a, sent, true⟩

end MechanicalResearcher.NetchanAuth
