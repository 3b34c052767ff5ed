import Iuring.Dns.Resolve
import Iuring.Net.Building

/-!
# Hostnames that are addresses

A hostname that is the text of an address is not looked up: the handler is called with what
`IPAddress::parse` makes of it.

* `handed` : the addresses that a handler is called with at once.
* `PortDetermined` : their ports depend on the hostname alone.
* `address_determined_iff` : which ways to make an address leave no prior memory in it; the one of
  `resolve_hostname` does.
-/

namespace Iuring

namespace Dns

open Reactive IPAddress

/-- The addresses that `resolve_hostname` calls a handler with before it returns. -/
def handed (m : Locals) (s : Resolver) (hostname : StringRef) (handler : Handler) (fresh : Ptr) :
    Option (List IPAddress) :=
  match s.resolveHostname (IPAddress.parse m) hostname handler fresh with
  | .ok s' => s'.ran.head?.bind fun r => r.2.toOption
  | .error _ => none

/-- The handler is called with the address that is parsed. -/
theorem handed_literal {m : Locals} {s : Resolver} {hostname : StringRef} {a : IPAddress}
    (h : IPAddress.parse m (s.strings hostname) = some a) (fn : ℕ) (fresh : Ptr) :
    handed m s hostname (some fn) fresh = some [a] := by
  simp only [handed, Resolver.resolveHostname, h, Resolver.runHandlers]
  rfl

/-- The ports that a handler is called with do not depend on the prior memory. -/
def PortDetermined (s : Resolver) (hostname : StringRef) (handler : Handler) (fresh : Ptr) : Prop :=
  ∀ m m', (handed m s hostname handler fresh).map (List.map getPort) =
    (handed m' s hostname handler fresh).map (List.map getPort)

theorem not_portDetermined {s : Resolver} {hostname : StringRef}
    (h : Literal (s.strings hostname)) (fn : ℕ) (fresh : Ptr) :
    ¬PortDetermined s hostname (some fn) fresh := by
  intro hd
  obtain ⟨a, ha⟩ := parse_isSome (Construction.filled 0) h
  obtain ⟨b, hb⟩ := parse_isSome (Construction.filled 1) h
  have hports := hd (Construction.filled 0) (Construction.filled 1)
  rw [handed_literal ha, handed_literal hb] at hports
  exact Construction.parse_ports ha hb (by simpa using hports)

/-- **Addresses that depend only on their arguments** are made by the constructor from an `in_addr`
and by `create_sock_addr_in`, and by no other construction; the port of a literal that
`resolve_hostname` hands to a handler never depends on the hostname alone. -/
theorem address_determined_iff (endsWith : String → String → Bool) (he : EndsWith endsWith)
    (inetNtop6 : Bytes 16 → String) :
    (∀ c : Construction, c.Accepted → (c.Determined endsWith inetNtop6 ↔ c.Initialises)) ∧
      ∀ (s : Resolver) (hostname : StringRef) (fn : ℕ) (fresh : Ptr),
        Literal (s.strings hostname) → ¬PortDetermined s hostname (some fn) fresh :=
  ⟨fun _ h => Construction.determined_iff he h,
    fun _ _ fn fresh h => not_portDetermined h fn fresh⟩

/-- The two constructors of port 443, and the address `::1` as a hostname. -/
theorem address_determined_iff_443 :
    (Construction.inAddr (fun _ => 7) 443).Determined isEnd (fun _ => "") ∧
      ¬(Construction.in6Addr (fun _ => 7) 443).Determined isEnd (fun _ => "") ∧
      ¬PortDetermined (Resolver.initial (fun _ => {}) fun _ => "::1") 0 (some 7) 0 := by
  obtain ⟨hbuild, hport⟩ := address_determined_iff isEnd endsWith_isEnd fun _ => ""
  exact ⟨(hbuild (.inAddr (fun _ => 7) 443) trivial).2 trivial,
    fun h => (hbuild (.in6Addr (fun _ => 7) 443) trivial).1 h,
    hport (Resolver.initial (fun _ => {}) fun _ => "::1") 0 7 0 (by decide)⟩

/-- The address `1.2.3.4`, parsed in two memories. -/
theorem address_not_determined :
    ¬∀ (endsWith : String → String → Bool) (inetNtop6 : Bytes 16 → String) (c : Construction),
      EndsWith endsWith → c.Accepted → c.Determined endsWith inetNtop6 := by
  intro hall
  have hliteral : Literal "1.2.3.4" := by decide
  obtain ⟨a, b, ha, hb, -, hfields⟩ := hall isEnd (fun _ => "") (.parse "1.2.3.4") endsWith_isEnd
    hliteral (Construction.filled 0) (Construction.filled 1)
  change IPAddress.parse _ "1.2.3.4" = _ at ha hb
  exact Construction.parse_ports ha hb (getPort_eq_of_fields hfields)

end Dns

end Iuring
