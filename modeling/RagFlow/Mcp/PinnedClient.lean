import RagFlow.Lib.GoString
import RagFlow.Lib.NetIP
import RagFlow.Lib.Runs

/-!
# The SSRF guard

`AssertURLSafe` and `isGlobalIP` of `internal/utility/ssrf.go`, and the blocks of addresses the
guard lets through.
-/

namespace RagFlow.Mcp

open RagFlow.Lib
open RagFlow.Lib.NetIP

universe u

def effectiveIP (ip : IP) : IP :=
  match ip.to4 with
  | some v4 => v4
  | none => ip

def isGlobalIP (ip : IP) : Bool :=
  if ip.isUnspecified || ip.isLoopback || ip.isMulticast || ip.isLinkLocalUnicast ||
      ip.isLinkLocalMulticast || ip.isInterfaceLocalMulticast || ip.isPrivate then false
  else
    match ip.to4 with
    | some v4 =>
      -- CGNAT 100.64.0.0/10
      if v4.byte 0 = 100 && v4.byte 1 &&& 0xC0 = 64 then false
      -- 192.0.0.0/24 reserved for IETF protocol assignments
      else if v4.byte 0 = 192 && v4.byte 1 = 0 && v4.byte 2 = 0 then false
      -- 192.0.2.0/24, 198.51.100.0/24, 203.0.113.0/24 documentation
      else if v4.byte 0 = 192 && v4.byte 1 = 0 && v4.byte 2 = 2 then false
      else if v4.byte 0 = 198 && v4.byte 1 = 51 && v4.byte 2 = 100 then false
      else if v4.byte 0 = 203 && v4.byte 1 = 0 && v4.byte 2 = 113 then false
      -- 198.18.0.0/15 benchmarking
      else if v4.byte 0 = 198 && (v4.byte 1 = 18 || v4.byte 1 = 19) then false
      -- 240.0.0.0/4 reserved
      else if v4.byte 0 ≥ 240 then false
      else true
    | none =>
      -- 2001:db8::/32 documentation prefix
      if ip.byte 0 = 0x20 && ip.byte 1 = 0x01 && ip.byte 2 = 0x0d && ip.byte 3 = 0xb8 then false
      -- 100::/64 discard-only address block
      else if ip.byte 0 = 0x01 && ip.byte 1 = 0x00 &&
          ((ip.bytes.drop 2).take 6).all (· = 0) then false
      else true

/-- What `net/url` and `net` provide: `url.Parse` with the scheme and the host name of a URL, and
`net.ParseIP`. -/
structure NetLibrary (Url : Type u) where
  parse : List Char → Option Url
  scheme : Url → List Char
  hostname : Url → List Char
  parseIP : List Char → Option IP

inductive Refusal where
  | invalidUrl
  | disallowedScheme (scheme : List Char)
  | missingHost
  | unresolved (hostname : List Char)
  | noAddresses (hostname : List Char)
  | unparsable (addr hostname : List Char)
  | nonPublic (ip : IP)

def schemeAllowed (scheme : List Char) : Bool :=
  ["http".toList, "https".toList].contains scheme

/-- What the guard lets through: the host name and the addresses it resolves to, of which the first
one is dialled. -/
structure SafeHost where
  hostname : List Char
  resolvedIP : IP
  others : List IP

def SafeHost.ips (safe : SafeHost) : List IP := safe.resolvedIP :: safe.others

variable {Url : Type u} (net : NetLibrary Url)

def checkAddrs (hostname : List Char) : List (List Char) → Except Refusal (List IP)
  | [] => .ok []
  | addr :: addrs =>
    match net.parseIP addr with
    | none => .error (.unparsable addr hostname)
    | some ip =>
      if isGlobalIP (effectiveIP ip) then
        match checkAddrs hostname addrs with
        | .ok ips => .ok (ip :: ips)
        | .error refusal => .error refusal
      else .error (.nonPublic ip)

/-- `AssertURLSafe`; `lookup` is what `LookupHost` answers in this call. -/
def assertURLSafe (rawURL : List Char) (lookup : Option (List (List Char))) :
    Except Refusal SafeHost :=
  match net.parse (GoString.trimSpace rawURL) with
  | none => .error .invalidUrl
  | some parsed =>
    let scheme := (net.scheme parsed).map Char.toLower
    if schemeAllowed scheme then
      let hostname := net.hostname parsed
      if hostname = [] then .error .missingHost
      else
        match lookup with
        | none => .error (.unresolved hostname)
        | some addrs =>
          match checkAddrs net hostname addrs with
          | .error refusal => .error refusal
          | .ok [] => .error (.noAddresses hostname)
          | .ok (ip :: ips) => .ok ⟨hostname, ip, ips⟩
    else .error (.disallowedScheme scheme)

inductive Kind where
  | unspecified
  | loopback
  | privateUse
  | linkLocal
  | multicast
  | shared
  | documentation
  | benchmarking
  | reserved

def kinds : List Kind :=
  [.unspecified, .loopback, .privateUse, .linkLocal, .multicast, .shared, .documentation,
    .benchmarking, .reserved]

def specialBlocks : Kind → List Block
  | .unspecified => unspecifiedBlocks
  | .loopback => loopbackBlocks
  | .privateUse => privateBlocks
  | .linkLocal => linkLocalBlocks
  | .multicast => multicastBlocks
  | .shared => [.v4 [100, 64] 10]
  | .documentation =>
    [.v4 [192, 0, 2] 24, .v4 [198, 51, 100] 24, .v4 [203, 0, 113] 24,
      .v6 [0x20, 0x01, 0x0d, 0xb8] 32, .v6 [0x3f, 0xff, 0] 20]
  | .benchmarking => [.v4 [198, 18] 15, .v6 [0x20, 0x01, 0, 0x02, 0, 0] 48]
  | .reserved =>
    [.v4 [0] 8, .v4 [192, 0, 0] 24, .v4 [240] 4, .v6 [0] 8, .v6 [0x01] 8, .v6 [0x02] 7,
      .v6 [0x04] 6, .v6 [0x08] 5, .v6 [0x10] 4, .v6 [0x40] 3, .v6 [0x60] 3, .v6 [0x80] 3,
      .v6 [0xa0] 3, .v6 [0xc0] 3, .v6 [0xe0] 4, .v6 [0xf0] 5, .v6 [0xf8] 6, .v6 [0xfe, 0] 9,
      .v6 [0xfe, 0xc0] 10, .v6 [0x01, 0, 0, 0, 0, 0, 0, 0] 64]

/-- The blocks `isGlobalIP` spells out. -/
def spelledBlocks : List Block :=
  [.v4 [100, 64] 10, .v4 [192, 0, 0] 24, .v4 [192, 0, 2] 24, .v4 [198, 51, 100] 24,
    .v4 [203, 0, 113] 24, .v4 [198, 18] 15, .v4 [240] 4, .v6 [0x20, 0x01, 0x0d, 0xb8] 32,
    .v6 [0x01, 0, 0, 0, 0, 0, 0, 0] 64]

/-- The blocks `isGlobalIP` refuses. -/
def refusedBlocks : List Block :=
  unspecifiedBlocks ++ (loopbackBlocks ++ (multicastBlocks ++ (linkLocalBlocks ++
    (privateBlocks ++ spelledBlocks))))

/-- The special blocks `isGlobalIP` does not know. -/
def missedBlocks : List Block :=
  [.v6 [0x3f, 0xff, 0] 20, .v6 [0x20, 0x01, 0, 0x02, 0, 0] 48, .v4 [0] 8, .v6 [0] 8,
    .v6 [0x01] 8, .v6 [0x02] 7, .v6 [0x04] 6, .v6 [0x08] 5, .v6 [0x10] 4, .v6 [0x40] 3,
    .v6 [0x60] 3, .v6 [0x80] 3, .v6 [0xa0] 3, .v6 [0xc0] 3, .v6 [0xe0] 4, .v6 [0xf0] 5,
    .v6 [0xf8] 6, .v6 [0xfe, 0] 9, .v6 [0xfe, 0xc0] 10]

theorem refused_or_missed (kind : Kind) :
    ∀ block ∈ specialBlocks kind, block ∈ refusedBlocks ∨ block ∈ missedBlocks := by
  cases kind <;> decide

theorem special_of_refused_or_missed :
    ∀ block ∈ refusedBlocks ++ missedBlocks, ∃ kind ∈ kinds, block ∈ specialBlocks kind := by
  decide

theorem forall_byte {property : UInt8 → Prop} (all : ∀ byte : Fin 256, property (UInt8.ofFin byte))
    (byte : UInt8) : property byte := all byte.toFin

theorem and_254_eq_18_iff (byte : UInt8) : byte &&& 254 = 18 ↔ byte = 18 ∨ byte = 19 := by
  revert byte
  exact forall_byte (by decide +kernel)

theorem and_240_eq_240_iff (byte : UInt8) : byte &&& 240 = 240 ↔ 240 ≤ byte := by
  revert byte
  exact forall_byte (by decide +kernel)

theorem isGlobalIP_of_basic {ip : IP}
    (basic : ip.isUnspecified = true ∨ ip.isLoopback = true ∨ ip.isMulticast = true ∨
      ip.isLinkLocalUnicast = true ∨ ip.isPrivate = true) : isGlobalIP ip = false := by
  obtain found | found | found | found | found := basic <;> simp [isGlobalIP, found]

theorem isGlobalIP_of_not_basic {ip : IP}
    (basic : ¬ (ip.isUnspecified = true ∨ ip.isLoopback = true ∨ ip.isMulticast = true ∨
      ip.isLinkLocalUnicast = true ∨ ip.isPrivate = true)) :
    isGlobalIP ip = true ↔ ¬ IsIn spelledBlocks ip := by
  have linkLocal : ip.isLinkLocalMulticast = false := by
    rw [Bool.eq_false_iff]
    exact fun linkLocal => basic (.inr (.inr (.inl (isMulticast_of_linkLocal linkLocal))))
  have interfaceLocal : ip.isInterfaceLocalMulticast = false := by
    rw [Bool.eq_false_iff]
    exact fun interfaceLocal =>
      basic (.inr (.inr (.inl (isMulticast_of_interfaceLocal interfaceLocal))))
  simp only [not_or, Bool.not_eq_true] at basic
  cases found : ip.to4 with
  | some ip4 =>
    obtain ⟨b0, b1, b2, b3, bytes⟩ := IP.bytes_of_to4 found
    simp [isGlobalIP, basic, linkLocal, interfaceLocal, found, IP.byte, bytes, IsIn,
      spelledBlocks, contains_v4_of_some found, contains_v6_of_some found, agree, mask,
      and_254_eq_18_iff, and_240_eq_240_iff, imp_iff_not_or, or_assoc]
  | none =>
    obtain ⟨b0, b1, b2, b3, b4, b5, b6, b7, rest, bytes, -⟩ := IP.bytes_of_none found
    simp [isGlobalIP, basic, linkLocal, interfaceLocal, found, IP.byte, bytes, IsIn,
      spelledBlocks, contains_v4_of_none found, contains_v6_of_none found, agree, mask,
      imp_iff_not_or, or_assoc]

theorem isGlobalIP_iff (ip : IP) : isGlobalIP ip = true ↔ ¬ IsIn refusedBlocks ip := by
  simp only [refusedBlocks, isIn_append, ← isUnspecified_iff, ← isLoopback_iff, ← isMulticast_iff,
    ← isLinkLocalUnicast_iff, ← isPrivate_iff]
  by_cases basic : ip.isUnspecified = true ∨ ip.isLoopback = true ∨ ip.isMulticast = true ∨
      ip.isLinkLocalUnicast = true ∨ ip.isPrivate = true
  · rw [isGlobalIP_of_basic basic]
    tauto
  · have spelled := isGlobalIP_of_not_basic basic
    tauto

theorem special_iff (ip : IP) :
    (∃ kind, IsIn (specialBlocks kind) ip) ↔ isGlobalIP ip = false ∨ IsIn missedBlocks ip := by
  rw [← Bool.not_eq_true, isGlobalIP_iff, not_not, ← isIn_append]
  constructor
  · rintro ⟨kind, block, isMem, contains⟩
    exact ⟨block, List.mem_append.mpr (refused_or_missed kind block isMem), contains⟩
  · rintro ⟨block, isMem, contains⟩
    obtain ⟨kind, -, special⟩ := special_of_refused_or_missed block isMem
    exact ⟨kind, block, special, contains⟩

theorem effectiveIP_eq (ip : IP) : effectiveIP ip = ip.to4.getD ip := by
  unfold effectiveIP
  cases ip.to4 <;> rfl

theorem isIn_effectiveIP (blocks : List Block) (ip : IP) :
    IsIn blocks (effectiveIP ip) ↔ IsIn blocks ip := by
  simp only [IsIn, Block.contains, effectiveIP_eq, to4_getD]
  cases ip.to4 <;> rfl

variable {net}

theorem checkAddrs_ok {hostname : List Char} : ∀ {addrs : List (List Char)} {ips : List IP},
    checkAddrs net hostname addrs = .ok ips →
      addrs.map net.parseIP = ips.map some ∧ ∀ ip ∈ ips, isGlobalIP (effectiveIP ip) = true
  | [], ips, checked => by
    cases checked
    simp
  | addr :: addrs, ips, checked => by
    simp only [checkAddrs] at checked
    split at checked
    · cases checked
    · rename_i ip parsed
      split at checked
      · rename_i isGlobal
        split at checked
        · rename_i rest restChecked
          cases checked
          obtain ⟨parsedRest, areGlobal⟩ := checkAddrs_ok restChecked
          refine ⟨?_, List.forall_mem_cons.mpr ⟨isGlobal, areGlobal⟩⟩
          rw [List.map_cons, List.map_cons, parsed, parsedRest]
        · cases checked
      · cases checked

theorem assertURLSafe_ok {rawURL : List Char} {lookup : Option (List (List Char))}
    {safe : SafeHost} (passed : assertURLSafe net rawURL lookup = .ok safe) :
    ∃ addrs, lookup = some addrs ∧ addrs.map net.parseIP = safe.ips.map some ∧
      ∀ ip ∈ safe.ips, isGlobalIP (effectiveIP ip) = true := by
  simp only [assertURLSafe] at passed
  split at passed
  · cases passed
  · split_ifs at passed
    · split at passed
      · cases passed
      · rename_i addrs
        split at passed
        · cases passed
        · cases passed
        · rename_i ip ips checked
          cases passed
          exact ⟨addrs, rfl, checkAddrs_ok checked⟩

def Ordinary (net : NetLibrary Url) (lookup : Option (List (List Char))) : Prop :=
  ∀ addrs, lookup = some addrs →
    (∀ addr ∈ addrs, ∃ ip, net.parseIP addr = some ip ∧ isGlobalIP (effectiveIP ip) = true) →
      ∀ addr ∈ addrs, ∀ ip, net.parseIP addr = some ip → ¬ IsIn missedBlocks ip

theorem not_special_of_ordinary {rawURL : List Char} {lookup : Option (List (List Char))}
    {safe : SafeHost} (ordinary : Ordinary net lookup)
    (passed : assertURLSafe net rawURL lookup = .ok safe) {ip : IP} (isMem : ip ∈ safe.ips)
    (kind : Kind) : ¬ IsIn (specialBlocks kind) ip := by
  obtain ⟨addrs, rfl, parsed, areGlobal⟩ := assertURLSafe_ok passed
  have mem_iff (found : IP) : found ∈ safe.ips ↔ ∃ addr ∈ addrs, net.parseIP addr = some found := by
    have same : some found ∈ addrs.map net.parseIP ↔ some found ∈ safe.ips.map some := by
      rw [parsed]
    simpa [eq_comm] using same.symm
  have allPass : ∀ addr ∈ addrs,
      ∃ ip, net.parseIP addr = some ip ∧ isGlobalIP (effectiveIP ip) = true := by
    intro addr isAddr
    have isParsed : net.parseIP addr ∈ safe.ips.map some :=
      parsed ▸ List.mem_map_of_mem isAddr
    obtain ⟨ip, isIp, isSome⟩ := List.mem_map.mp isParsed
    exact ⟨ip, isSome.symm, areGlobal ip isIp⟩
  obtain ⟨addr, isAddr, isSome⟩ := (mem_iff ip).mp isMem
  have known : ¬ IsIn missedBlocks ip := ordinary addrs rfl allPass addr isAddr ip isSome
  intro special
  have isGlobal := areGlobal ip isMem
  rw [isGlobalIP_iff, isIn_effectiveIP, ← isGlobalIP_iff] at isGlobal
  cases (special_iff ip).mp ⟨kind, special⟩ with
  | inl refused => rw [isGlobal] at refused; cases refused
  | inr missed => exact known missed

end RagFlow.Mcp

/-!
# The connections of the MCP client

`FetchTools` of `internal/utility/mcp_client.go` with the clients of `PinnedHTTPClient`: which TCP
connections a call opens, whatever the server answers and whatever the names resolve to.
-/

namespace RagFlow.Mcp.PinnedClient

open RagFlow.Lib
open RagFlow.Lib.NetIP

universe u

/-- What `net/url` and `net/http` provide beyond `NetLibrary`: `URL.Parse` for a redirect,
`ResolveReference(..).String()`, and the ASCII form of a host name, which is what is dialled. -/
structure HttpLibrary (Url : Type u) extends NetLibrary Url where
  reference : Url → List Char → Option Url
  resolveReference : Url → Url → List Char
  toASCII : List Char → List Char

structure Client where
  hostname : List Char
  resolvedIP : IP

/-- `DialContext`; `resolved` is what the dialler connects to if it looks the host up itself. -/
def Client.dialContext (client : Client) (host : List Char) (resolved : IP) : IP :=
  if host = client.hostname then client.resolvedIP else resolved

structure FetchOptions where
  url : List Char
  serverType : List Char

/-- A request of the client; `via` counts the requests of its chain of redirects. -/
structure Request (Url : Type u) where
  client : Client
  url : Url
  via : Nat

/-- What a call does once a response has come: it waits for the endpoint event, or sends the next of
its posts to one URL. -/
inductive After where
  | stream (client : Client)
  | posts (client : Client) (url : List Char) (left : Nat)

inductive Stage (Url : Type u) where
  | request (request : Request Url) (after : After)
  | endpoint (client : Client)
  | finished

/-- `accepted` lists what the guard has let through and `dialled` the connections. -/
structure Call (Url : Type u) where
  accepted : List (List Char × IP)
  dialled : List (List Char × IP)
  stage : Stage Url

inductive Move where
  /-- the request opens a connection -/
  | connects (resolved : IP)
  | redirects (location : List Char)
  | responds
  | fails
  /-- the endpoint event, and what the host name of its URL resolves to -/
  | endpoint (data : List Char) (lookup : Option (List (List Char)))

variable {Url : Type u} (net : HttpLibrary Url) (opts : FetchOptions)

def dialHost (url : Url) : List Char := net.toASCII (net.hostname url)

/-- `http.NewRequestWithContext` and the first step of `client.Do`. -/
def newRequest (client : Client) (url : List Char) (after : After) : Stage Url :=
  match net.parse url with
  | some parsed => .request ⟨client, parsed, 1⟩ after
  | none => .finished

def SafeHost.entries (safe : SafeHost) : List (List Char × IP) :=
  safe.ips.map fun ip => (safe.hostname, ip)

def firstRequest (client : Client) : Stage Url :=
  let serverType := opts.serverType.map Char.toLower
  if serverType = "streamable-http".toList then
    newRequest net client opts.url (.posts client opts.url 2)
  else if serverType = "sse".toList then newRequest net client opts.url (.stream client)
  else .finished

/-- `FetchTools` until its first request; `lookup` is what the host name of the URL resolves to. -/
def fetchTools (lookup : Option (List (List Char))) : Call Url :=
  if opts.url = [] then ⟨[], [], .finished⟩
  else
    match assertURLSafe net.toNetLibrary opts.url lookup with
    | .error _ => ⟨[], [], .finished⟩
    | .ok safe =>
      ⟨SafeHost.entries safe, [], firstRequest net opts ⟨safe.hostname, safe.resolvedIP⟩⟩

def originalHost (endpoint : List Char) : List Char :=
  match net.parse endpoint with
  | some url => net.hostname url
  | none => []

def postClient (client : Client) (postURL : List Char) (safe : SafeHost) : Client :=
  match net.parse postURL with
  | some url =>
    if net.hostname url ≠ [] ∧ net.hostname url ≠ originalHost net opts.url then
      ⟨safe.hostname, safe.resolvedIP⟩
    else client
  | none => client

/-- `waitForEndpoint` and the check of the URL it returns. -/
def endpointEvent (call : Call Url) (client : Client) (data : List Char)
    (lookup : Option (List (List Char))) : Call Url :=
  let ref := GoString.trimSpace data
  if ref = [] then { call with stage := .finished }
  else
    match net.parse opts.url, net.parse ref with
    | some baseURL, some rel =>
      let postURL := net.resolveReference baseURL rel
      match assertURLSafe net.toNetLibrary postURL lookup with
      | .error _ => { call with stage := .finished }
      | .ok safe =>
        let client := postClient net opts client postURL safe
        { call with
          accepted := call.accepted ++ SafeHost.entries safe
          stage := newRequest net client postURL (.posts client postURL 2) }
    | _, _ => { call with stage := .finished }

def proceed : After → Stage Url
  | .stream client => .endpoint client
  | .posts _ _ 0 => .finished
  | .posts client url (left + 1) => newRequest net client url (.posts client url left)

/-- `redirectBehavior` of `net/http` with a nil `CheckRedirect`. -/
def redirected (request : Request Url) (location : List Char) (after : After) : Stage Url :=
  match net.reference request.url location with
  | some url =>
    if request.via < 10 then .request { request with url := url, via := request.via + 1 } after
    else .finished
  | none => .finished

def step (call : Call Url) : Move → Call Url
  | .connects resolved =>
    match call.stage with
    | .request request _ =>
      let host := dialHost net request.url
      { call with
        dialled := call.dialled ++ [(host, request.client.dialContext host resolved)] }
    | _ => call
  | .redirects location =>
    match call.stage with
    | .request request after => { call with stage := redirected net request location after }
    | _ => call
  | .responds =>
    match call.stage with
    | .request _ after => { call with stage := proceed net after }
    | _ => call
  | .fails => { call with stage := .finished }
  | .endpoint data lookup =>
    match call.stage with
    | .endpoint client => endpointEvent net opts call client data lookup
    | _ => call

/-- Every connection goes to an address accepted for its host, and no accepted address is special. -/
structure Guarded (call : Call Url) : Prop where
  dialled_accepted : ∀ entry ∈ call.dialled, entry ∈ call.accepted
  not_special : ∀ entry ∈ call.accepted, ∀ kind, ¬ IsIn (specialBlocks kind) entry.2

def Pinned (call : Call Url) : Move → Prop
  | .connects _ => ∀ request after, call.stage = .request request after →
      dialHost net request.url = request.client.hostname
  | .endpoint _ lookup => Ordinary net.toNetLibrary lookup
  | _ => True

def After.client : After → Client
  | .stream client => client
  | .posts client _ _ => client

def Stage.clients : Stage Url → List Client
  | .request current after => [current.client, after.client]
  | .endpoint client => [client]
  | .finished => []

def Client.entry (client : Client) : List Char × IP := (client.hostname, client.resolvedIP)

def Backed (call : Call Url) : Prop :=
  ∀ client ∈ call.stage.clients, client.entry ∈ call.accepted

variable {net opts}

theorem eq_of_mem_newRequest {client other : Client} {url : List Char} {after : After}
    (isMem : other ∈ (newRequest net client url after).clients) (same : after.client = client) :
    other = client := by
  unfold newRequest at isMem
  split at isMem
  · simpa [Stage.clients, same] using isMem
  · simp [Stage.clients] at isMem

theorem eq_of_mem_proceed {after : After} {client : Client}
    (isMem : client ∈ (proceed net after).clients) : client = after.client := by
  cases after with
  | stream client => simpa [proceed, Stage.clients, After.client] using isMem
  | posts client url left =>
    cases left with
    | zero => simp [proceed, Stage.clients] at isMem
    | succ left => exact eq_of_mem_newRequest isMem rfl

theorem mem_of_mem_redirected {request : Request Url} {location : List Char} {after : After}
    {client : Client} (isMem : client ∈ (redirected net request location after).clients) :
    client ∈ (Stage.request request after).clients := by
  unfold redirected at isMem
  split at isMem
  · split_ifs at isMem
    · exact isMem
    · simp [Stage.clients] at isMem
  · simp [Stage.clients] at isMem

theorem mem_entries {safe : SafeHost} {entry : List Char × IP} :
    entry ∈ SafeHost.entries safe ↔ entry.1 = safe.hostname ∧ entry.2 ∈ safe.ips := by
  obtain ⟨hostname, ip⟩ := entry
  simp [SafeHost.entries, eq_comm, and_comm]

theorem entry_mem_entries (safe : SafeHost) :
    (Client.entry ⟨safe.hostname, safe.resolvedIP⟩) ∈ SafeHost.entries safe :=
  mem_entries.mpr ⟨rfl, List.mem_cons_self ..⟩

theorem postClient_cases (net : HttpLibrary Url) (opts : FetchOptions)
    (client : Client) (postURL : List Char) (safe : SafeHost) :
    postClient net opts client postURL safe = client ∨
      postClient net opts client postURL safe = ⟨safe.hostname, safe.resolvedIP⟩ := by
  unfold postClient
  split
  · split_ifs
    · exact .inr rfl
    · exact .inl rfl
  · exact .inl rfl

theorem endpointEvent_cases (net : HttpLibrary Url) (opts : FetchOptions)
    (call : Call Url) (client : Client) (data : List Char)
    (lookup : Option (List (List Char))) :
    endpointEvent net opts call client data lookup = { call with stage := .finished } ∨
      ∃ postURL safe, assertURLSafe net.toNetLibrary postURL lookup = .ok safe ∧
        endpointEvent net opts call client data lookup =
          { call with
            accepted := call.accepted ++ SafeHost.entries safe
            stage := newRequest net (postClient net opts client postURL safe) postURL
              (.posts (postClient net opts client postURL safe) postURL 2) } := by
  simp only [endpointEvent]
  split_ifs
  · exact .inl rfl
  · split
    · split
      · exact .inl rfl
      · rename_i safe passed
        exact .inr ⟨_, safe, passed, rfl⟩
    · exact .inl rfl

theorem backed_endpointEvent {call : Call Url} {client : Client}
    (backed : client.entry ∈ call.accepted) (data : List Char)
    (lookup : Option (List (List Char))) :
    Backed (endpointEvent net opts call client data lookup) := by
  obtain same | ⟨postURL, safe, -, same⟩ :=
    endpointEvent_cases net opts call client data lookup
  · rw [same]
    intro other isMem
    cases isMem
  · rw [same]
    intro other isMem
    rw [eq_of_mem_newRequest isMem rfl]
    cases postClient_cases net opts client postURL safe with
    | inl old =>
      rw [old]
      exact List.mem_append_left _ backed
    | inr new =>
      rw [new]
      exact List.mem_append_right _ (entry_mem_entries safe)

theorem backed_step {call : Call Url} (backed : Backed call) (move : Move) :
    Backed (step net opts call move) := by
  cases move with
  | connects resolved =>
    simp only [step]
    split
    · exact backed
    · exact backed
  | redirects location =>
    simp only [step]
    split
    · rename_i request after sending
      intro client isMem
      exact backed client (sending ▸ mem_of_mem_redirected isMem)
    · exact backed
  | responds =>
    simp only [step]
    split
    · rename_i request after sending
      intro client isMem
      rw [eq_of_mem_proceed isMem]
      exact backed after.client (by simp [sending, Stage.clients])
    · exact backed
  | fails =>
    intro client isMem
    cases isMem
  | endpoint data lookup =>
    simp only [step]
    split
    · rename_i client waiting
      exact backed_endpointEvent (backed client (by simp [waiting, Stage.clients])) data lookup
    · exact backed

theorem guarded_accept {call : Call Url} (guarded : Guarded call) {rawURL : List Char}
    {lookup : Option (List (List Char))} {safe : SafeHost}
    (ordinary : Ordinary net.toNetLibrary lookup)
    (passed : assertURLSafe net.toNetLibrary rawURL lookup = .ok safe) (stage : Stage Url) :
    Guarded { call with accepted := call.accepted ++ SafeHost.entries safe, stage := stage } where
  dialled_accepted entry isMem := List.mem_append_left _ (guarded.dialled_accepted entry isMem)
  not_special entry isMem kind := by
    cases List.mem_append.mp isMem with
    | inl earlier => exact guarded.not_special entry earlier kind
    | inr new => exact not_special_of_ordinary ordinary passed (mem_entries.mp new).2 kind

theorem guarded_step {call : Call Url} {move : Move} (pinned : Pinned net call move)
    (backed : Backed call) (guarded : Guarded call) : Guarded (step net opts call move) := by
  cases move with
  | connects resolved =>
    simp only [step]
    split
    · rename_i request after sending
      have isPinned := pinned request after sending
      have dialled : (dialHost net request.url,
          request.client.dialContext (dialHost net request.url) resolved) =
            request.client.entry := by
        rw [isPinned, Client.dialContext, if_pos rfl, Client.entry]
      have accepted := backed request.client (by simp [sending, Stage.clients])
      refine ⟨fun entry isMem => ?_, guarded.not_special⟩
      cases List.mem_append.mp isMem with
      | inl earlier => exact guarded.dialled_accepted entry earlier
      | inr new =>
        rw [List.mem_singleton.mp new, dialled]
        exact accepted
    · exact guarded
  | redirects location =>
    simp only [step]
    split
    · exact ⟨guarded.dialled_accepted, guarded.not_special⟩
    · exact guarded
  | responds =>
    simp only [step]
    split
    · exact ⟨guarded.dialled_accepted, guarded.not_special⟩
    · exact guarded
  | fails => exact ⟨guarded.dialled_accepted, guarded.not_special⟩
  | endpoint data lookup =>
    simp only [step]
    split
    · rename_i client waiting
      obtain same | ⟨postURL, safe, passed, same⟩ :=
        endpointEvent_cases net opts call client data lookup
      · rw [same]
        exact ⟨guarded.dialled_accepted, guarded.not_special⟩
      · rw [same]
        exact guarded_accept guarded pinned passed _
    · exact guarded

theorem eq_of_mem_firstRequest {client other : Client}
    (isMem : other ∈ (firstRequest net opts client).clients) : other = client := by
  simp only [firstRequest] at isMem
  split_ifs at isMem
  · exact eq_of_mem_newRequest isMem rfl
  · exact eq_of_mem_newRequest isMem rfl
  · cases isMem

theorem fetchTools_cases (net : HttpLibrary Url) (opts : FetchOptions)
    (lookup : Option (List (List Char))) :
    fetchTools net opts lookup = ⟨[], [], .finished⟩ ∨
      ∃ safe, assertURLSafe net.toNetLibrary opts.url lookup = .ok safe ∧
        fetchTools net opts lookup =
          ⟨SafeHost.entries safe, [], firstRequest net opts ⟨safe.hostname, safe.resolvedIP⟩⟩ := by
  rw [fetchTools]
  split_ifs
  · exact .inl rfl
  · split
    · exact .inl rfl
    · rename_i safe passed
      exact .inr ⟨safe, passed, rfl⟩

theorem backed_fetchTools (lookup : Option (List (List Char))) :
    Backed (fetchTools net opts lookup) := by
  obtain same | ⟨safe, -, same⟩ := fetchTools_cases net opts lookup
  · rw [same]
    intro client isMem
    cases isMem
  · rw [same]
    intro client isMem
    rw [eq_of_mem_firstRequest isMem]
    exact entry_mem_entries safe

theorem guarded_fetchTools {lookup : Option (List (List Char))}
    (ordinary : Ordinary net.toNetLibrary lookup) : Guarded (fetchTools net opts lookup) := by
  have empty (stage : Stage Url) : Guarded ⟨[], [], stage⟩ :=
    ⟨fun entry isMem => absurd isMem List.not_mem_nil,
      fun entry isMem => absurd isMem List.not_mem_nil⟩
  obtain same | ⟨safe, passed, same⟩ := fetchTools_cases net opts lookup
  · rw [same]
    exact empty _
  · rw [same]
    exact guarded_accept (empty .finished) ordinary passed _

/-- Whatever the server answers and whatever the names resolve to, the guard covers the connections
of a call as long as none of them is for another host than the pinned one. -/
theorem guarded_of_along (net : HttpLibrary Url) (opts : FetchOptions)
    (lookup : Option (List (List Char))) (moves : List Move)
    (ordinary : Ordinary net.toNetLibrary lookup)
    (pinned : Runs.Along (step net opts) (Pinned net) (fetchTools net opts lookup) moves) :
    Guarded (Runs.run (step net opts) (fetchTools net opts lookup) moves) := by
  let sound (call : Call Url) : Prop := Backed call ∧ Guarded call
  have initially : sound (fetchTools net opts lookup) :=
    ⟨backed_fetchTools lookup, guarded_fetchTools ordinary⟩
  have preserved (call : Call Url) (move : Move) (isPinned : Pinned net call move)
      (before : sound call) : sound (step net opts call move) :=
    ⟨backed_step before.1 move, guarded_step isPinned before.1 before.2⟩
  have after : sound (Runs.run (step net opts) (fetchTools net opts lookup) moves) :=
    Runs.invariant_along initially preserved pinned
  exact after.2

structure Page where
  text : List Char
  scheme : List Char
  hostname : List Char
  deriving DecidableEq

def streamPage : Page :=
  ⟨"https://mcp.example.com/sse".toList, "https".toList, "mcp.example.com".toList⟩

def postPage : Page :=
  ⟨"https://API.example.com/messages".toList, "https".toList, "API.example.com".toList⟩

def metadataPage : Page :=
  ⟨"http://169.254.169.254/latest".toList, "http".toList, "169.254.169.254".toList⟩

def publicIP : IP := ⟨mappedStart ++ [93, 184, 216, 34], .inr rfl⟩

def otherPublicIP : IP := ⟨mappedStart ++ [93, 184, 216, 35], .inr rfl⟩

def metadataIP : IP := ⟨mappedStart ++ [169, 254, 169, 254], .inr rfl⟩

def parsePage (text : List Char) : Option Page :=
  [streamPage, postPage, metadataPage].find? fun page => page.text = text

def exampleNet : HttpLibrary Page where
  parse := parsePage
  scheme := Page.scheme
  hostname := Page.hostname
  parseIP text :=
    if text = "93.184.216.34".toList then some publicIP
    else if text = "93.184.216.35".toList then some otherPublicIP
    else none
  reference _ := parsePage
  resolveReference _ rel := rel.text
  toASCII := id

theorem ordinary_single {addr : List Char} {ip : IP} (parsed : net.parseIP addr = some ip)
    (known : ¬ IsIn missedBlocks ip) : Ordinary net.toNetLibrary (some [addr]) := by
  intro addrs same _ other isMem found parsedFound
  cases same
  rw [List.mem_singleton.mp isMem, parsed] at parsedFound
  cases parsedFound
  exact known

theorem guarded_otherHost : Guarded
    (Runs.run (step exampleNet ⟨streamPage.text, "sse".toList⟩)
      (fetchTools exampleNet ⟨streamPage.text, "sse".toList⟩ (some ["93.184.216.34".toList]))
      [.connects metadataIP, .responds,
        .endpoint postPage.text (some ["93.184.216.35".toList]), .connects metadataIP]) := by
  have stream : Ordinary exampleNet.toNetLibrary (some ["93.184.216.34".toList]) :=
    ordinary_single rfl (by decide)
  have posts : Ordinary exampleNet.toNetLibrary (some ["93.184.216.35".toList]) :=
    ordinary_single rfl (by decide)
  apply guarded_of_along exampleNet ⟨streamPage.text, "sse".toList⟩ _ _ stream
  refine Runs.along_cons.mpr ⟨?_, Runs.along_cons.mpr ⟨trivial, Runs.along_cons.mpr ⟨posts,
    Runs.along_cons.mpr ⟨?_, Runs.along_nil⟩⟩⟩⟩
  · intro request after sending
    cases sending
    rfl
  · intro request after sending
    cases sending
    rfl

theorem not_guarded_redirected : ¬ Guarded
    (Runs.run (step exampleNet ⟨streamPage.text, "streamable-http".toList⟩)
      (fetchTools exampleNet ⟨streamPage.text, "streamable-http".toList⟩
        (some ["93.184.216.34".toList]))
      [.connects publicIP, .redirects metadataPage.text, .connects metadataIP]) := by
  intro guarded
  have accepted := guarded.dialled_accepted (metadataPage.hostname, metadataIP) (by decide)
  revert accepted
  decide

end RagFlow.Mcp.PinnedClient
