import Pullbackup.Library.Text

/- Who the login throttle is keyed on: http_auth.resolve_client_identity over
   every X-Forwarded-For line of a request. -/
namespace Pullbackup
open Text

/-- The address library: what parses as an address or, host bits allowed, as a network, and
    membership. -/
structure Addresses where
  Address : Type
  Network : Type
  ipAddress : String → Option Address
  ipNetwork : String → Option Network
  contains : Network → Address → Bool

section Resolver
variable (net : Addresses)

/-- One malformed entry discards the whole list. -/
def parseTrustedProxies (raw : String) : List net.Network :=
  (parseEntries (pieces ',' raw)).getD []
where
  parseEntries : List String → Option (List net.Network)
    | [] => some []
    | entry :: entries =>
      match net.ipNetwork entry with
      | none => none
      | some network => (parseEntries entries).map (network :: ·)

def isTrusted (address : String) (networks : List net.Network) : Bool :=
  if networks.isEmpty then false
  else
    match net.ipAddress address with
    | none => false
    | some parsed => networks.any fun network => net.contains network parsed

/-- The hops from the right, past those that are proxies of ours. -/
def walkHops (networks : List net.Network) (peer : String) : List String → String
  | [] => peer
  | hop :: hops =>
    match net.ipAddress hop with
    | none => peer
    | some _ => if isTrusted net hop networks then walkHops networks peer hops else hop

def resolveClientIdentity (settings : String) (peer : Option String) (forwardedFor : String)
    (trustedProxies : Option String) : String :=
  match peer with
  | none => "unknown"
  | some peer =>
    if peer = "" then "unknown"
    else
      let networks := parseTrustedProxies net (trustedProxies.getD settings)
      if isTrusted net peer networks = false then peer
      else walkHops net networks peer (pieces ',' forwardedFor).reverse

def forwardedForValue (lines : List String) : String := join ',' lines

def clientKey (settings : String) (peer : Option String) (lines : List String) : String :=
  resolveClientIdentity net settings peer (forwardedForValue lines) none

end Resolver

def hops (lines : List String) : List String := pieces ',' (forwardedForValue lines)

theorem hops_lines (lines : List String) : hops lines = lines.flatMap (pieces ',') :=
  pieces_join lines

section Walk
variable {net : Addresses} {networks : List net.Network} {peer : String}

/-- A hop the walk does not go past. -/
def Addresses.Stops (net : Addresses) (networks : List net.Network) (hop : String) : Prop :=
  net.ipAddress hop = none ∨ isTrusted net hop networks = false

theorem walk_stops {near : List String} (stop : ∃ hop ∈ near, net.Stops networks hop)
    (far : List String) :
    walkHops net networks peer (near ++ far) = walkHops net networks peer near := by
  induction near with
  | nil =>
    obtain ⟨hop, mem, -⟩ := stop
    cases mem
  | cons hop near ih =>
    rw [List.cons_append]
    unfold walkHops
    cases parsed : net.ipAddress hop with
    | none => rfl
    | some address =>
      cases trusted : isTrusted net hop networks with
      | false => rfl
      | true =>
        obtain ⟨stop, mem, stops⟩ := stop
        rcases List.mem_cons.mp mem with rfl | later
        · rcases stops with unparseable | untrusted
          · rw [parsed] at unparseable
            cases unparseable
          · rw [trusted] at untrusted
            cases untrusted
        · simp only [if_true]
          exact ih ⟨stop, later, stops⟩

theorem walk_suffix {front suffix : List String} (stop : ∃ hop ∈ suffix, net.Stops networks hop) :
    walkHops net networks peer (front ++ suffix).reverse =
      walkHops net networks peer suffix.reverse := by
  rw [List.reverse_append]
  obtain ⟨hop, mem, stops⟩ := stop
  exact walk_stops ⟨hop, List.mem_reverse.mpr mem, stops⟩ _

theorem parseEntries_malformed {entries : List String}
    (malformed : ∃ entry ∈ entries, net.ipNetwork entry = none) :
    parseTrustedProxies.parseEntries net entries = none := by
  induction entries with
  | nil =>
    obtain ⟨entry, mem, -⟩ := malformed
    cases mem
  | cons entry entries ih =>
    unfold parseTrustedProxies.parseEntries
    cases parsed : net.ipNetwork entry with
    | none => rfl
    | some network =>
      obtain ⟨bad, mem, unparsed⟩ := malformed
      rcases List.mem_cons.mp mem with rfl | later
      · rw [parsed] at unparsed
        cases unparsed
      · simp [ih ⟨bad, later, unparsed⟩]

theorem malformed_trusts_none {raw : String}
    (malformed : ∃ entry ∈ pieces ',' raw, net.ipNetwork entry = none) (address : String) :
    isTrusted net address (parseTrustedProxies net raw) = false := by
  unfold parseTrustedProxies
  rw [parseEntries_malformed malformed]
  rfl

end Walk
def peerIdentity (peer : Option String) : String :=
  match peer with
  | none => "unknown"
  | some peer => if peer = "" then "unknown" else peer

theorem untrusted_peer_is_identity (net : Addresses) (settings : String) {peer : Option String}
    {trustedProxies : Option String}
    (untrusted : ∀ address, peer = some address →
      isTrusted net address (parseTrustedProxies net (trustedProxies.getD settings)) = false)
    (forwardedFor : String) :
    resolveClientIdentity net settings peer forwardedFor trustedProxies = peerIdentity peer := by
  unfold resolveClientIdentity peerIdentity
  cases peer with
  | none => rfl
  | some address => simp [untrusted address rfl]

/-- The identity reads no more of the header than its hops. -/
theorem identity_of_hops (net : Addresses) (settings : String) (peer : Option String)
    (trustedProxies : Option String) {lines lines' front front' suffix : List String}
    (named : hops lines = front ++ suffix) (named' : hops lines' = front' ++ suffix)
    (stop : ∃ hop ∈ suffix,
      net.Stops (parseTrustedProxies net (trustedProxies.getD settings)) hop) :
    resolveClientIdentity net settings peer (forwardedForValue lines) trustedProxies =
      resolveClientIdentity net settings peer (forwardedForValue lines') trustedProxies := by
  unfold hops at named named'
  unfold resolveClientIdentity
  cases peer with
  | none => rfl
  | some address =>
    dsimp only
    rw [named, named', walk_suffix stop, walk_suffix stop]

/-- Two requests whose hops end alike, with a hop among them that the walk does not go past, are
    one identity; and with a peer that is not trusted the identity is the peer. -/
theorem identity_not_chosen_by_client (net : Addresses) (settings : String)
    (trustedProxies peer : Option String) :
    (∀ lines lines' front front' suffix : List String,
      hops lines = front ++ suffix → hops lines' = front' ++ suffix →
      (∃ hop ∈ suffix, net.Stops (parseTrustedProxies net (trustedProxies.getD settings)) hop) →
      resolveClientIdentity net settings peer (forwardedForValue lines) trustedProxies =
        resolveClientIdentity net settings peer (forwardedForValue lines') trustedProxies) ∧
    ((∀ address, peer = some address →
        isTrusted net address (parseTrustedProxies net (trustedProxies.getD settings)) = false) ∨
      (∃ entry ∈ pieces ',' (trustedProxies.getD settings), net.ipNetwork entry = none) →
      ∀ lines : List String,
        resolveClientIdentity net settings peer (forwardedForValue lines) trustedProxies =
          peerIdentity peer) := by
  constructor
  · intro lines lines' front front' suffix named named' stop
    exact identity_of_hops net settings peer trustedProxies named named' stop
  · rintro (untrusted | malformed) lines
    · exact untrusted_peer_is_identity net settings untrusted _
    · exact untrusted_peer_is_identity net settings
        (fun address _ => malformed_trusts_none malformed address) _

def Sample.octet (text : String) : Option Nat :=
  let digits := text.toList
  if digits.length = 0 ∨ 3 < digits.length ∨ digits.any (fun c => !c.isDigit) ∨
      (1 < digits.length ∧ digits.head? = some '0') then none
  else
    let value := digits.foldl (fun n c => 10 * n + (c.toNat - 48)) 0
    if 255 < value then none else some value

def Sample.ipv4 (text : String) : Option Nat :=
  match (split '.' text).map Sample.octet with
  | [some a, some b, some c, some d] => some (((a * 256 + b) * 256 + c) * 256 + d)
  | _ => none

def Sample.prefixLength (text : String) : Option Nat :=
  (Sample.octet text).filter (· ≤ 32)

def Sample.network (text : String) : Option (Nat × Nat) :=
  match split '/' text with
  | [address] => (Sample.ipv4 address).map fun a => (a, 32)
  | [address, length] =>
    (Sample.ipv4 address).bind fun a => (Sample.prefixLength length).map fun n => (a, n)
  | _ => none

def Sample.addresses : Addresses where
  Address := Nat
  Network := Nat × Nat
  ipAddress := Sample.ipv4
  ipNetwork := Sample.network
  contains network address := network.1 >>> (32 - network.2) == address >>> (32 - network.2)

/-- The proxy appends the address it saw, on the client's line or on its own. -/
theorem crafted_hops_buy_nothing :
    clientKey Sample.addresses "10.0.0.0/8" (some "10.0.0.2")
        ["192.0.2.7, 198.51.100.9", " 203.0.113.5,10.0.0.3"] =
      clientKey Sample.addresses "10.0.0.0/8" (some "10.0.0.2")
        ["junk,,203.0.113.5 ,10.0.0.3"] ∧
    clientKey Sample.addresses "10.0.0.0/8, 10.0.0.2/33" (some "10.0.0.2") ["192.0.2.7"] =
      "10.0.0.2" := by
  have spec := identity_not_chosen_by_client Sample.addresses "10.0.0.0/8" none (some "10.0.0.2")
  have typo := identity_not_chosen_by_client Sample.addresses "10.0.0.0/8, 10.0.0.2/33" none
    (some "10.0.0.2")
  constructor
  · refine spec.1 _ _ ["192.0.2.7", "198.51.100.9"] ["junk"] ["203.0.113.5", "10.0.0.3"]
      (by decide) (by decide) ⟨"203.0.113.5", by decide, Or.inr ?_⟩
    decide
  · exact typo.2 (Or.inr ⟨"10.0.0.2/33", by decide, by decide⟩) ["192.0.2.7"]

end Pullbackup
