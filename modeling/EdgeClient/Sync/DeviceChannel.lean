import EdgeClient.Basis.UriSyntax
import EdgeClient.Storage.Database

/-!
# The address of the device channel

One configured base URL serves two connections with the same token. The transport for
requests checks the URL through the URI parser of the platform; the device channel rewrites
its text. The two agree on a scheme in lower case. On another spelling of the same scheme
the channel falls back to the unencrypted protocol.
-/

namespace EdgeClient.Sync

open Basis Storage

/-- What the platform's `Uri` says about a URL. The platform normalizes the letter case of the
scheme, which the comparison of the code does not. -/
structure Uri where
  /-- `SchemeName`. -/
  schemeName : String
  /-- `Host`. -/
  host : String
  /-- `UserName`. -/
  userName : String
  /-- `Password`. -/
  password : String
  /-- `Query`. -/
  query : String
  /-- `Fragment`. -/
  fragment : String
  deriving DecidableEq

/-- The URI parser of the platform: it accepts a scheme in any letter case and gives its name
in lower case. -/
def LowersScheme (uri : String → Option Uri) : Prop :=
  ∀ s u, uri s = some u → ∃ name, (UriParts.split s.toList).scheme = some name ∧
    u.schemeName.toList = name.map Char.toLower

/-- Remove the slashes at the end of a URL. -/
def trimUrl (url : String) : String := String.ofList (stripSlashes url.toList)

/-- `http_transport`: the base of the request URLs, unless the configured URL is refused. The
scheme is compared in the form the parser gives it, which is in small letters. -/
def httpTransport (uri : String → Option Uri) (base : String) (loopback : Bool)
    (timeoutMs : ℤ := 10000) : Except Thrown String :=
  match uri base with
  | none => throw (.runtimeError "Invalid URI")
  | some u =>
    if u.schemeName ≠ "https" ∧ ¬ (loopback ∧ u.schemeName = "http" ∧
        (u.host = "127.0.0.1" ∨ u.host = "localhost" ∨ u.host = "[::1]")) then
      throw (.invalidArgument "HTTPS required; plain HTTP allowed only for explicit loopback tests")
    else if u.userName ≠ "" ∨ u.password ≠ "" ∨ u.query ≠ "" ∨ u.fragment ≠ "" ∨ timeoutMs ≤ 0 then
      throw (.invalidArgument "Invalid HTTP base URL/deadline")
    else return trimUrl base

/-- Replace what stands before the first colon, or the whole text without a colon. -/
def replaceScheme (url scheme : List Char) : List Char :=
  scheme ++ url.dropWhile (· ≠ ':')

/-- The URL of the device channel. -/
def channelUrl (base : String) : String :=
  let url := stripSlashes base.toList
  let scheme := if "https:".toList.isPrefixOf url then "wss" else "ws"
  String.ofList (replaceScheme url scheme.toList ++ "/device-channel".toList)

/-- The worker of the device channel, up to its first connection: it checks the base URL as
the transport does and derives the URL of the channel. -/
def channelAddress (uri : String → Option Uri) (base : String) (loopback : Bool) :
    Except Thrown String := do
  let _ ← httpTransport uri base loopback
  return channelUrl base

/-- The URL of the channel is the base URL over the encrypted protocol. -/
structure Secured (base url : String) : Prop where
  /-- The protocol is encrypted. -/
  scheme : (UriParts.split url.toList).scheme = some "wss".toList
  /-- The server is the same. -/
  authority : (UriParts.split url.toList).authority = (UriParts.split base.toList).authority
  /-- The path is that of the channel. -/
  path : (UriParts.split url.toList).path =
    stripSlashes (UriParts.split base.toList).path ++ "/device-channel".toList

/-! ## The base URL -/

/-- The segment that the channel puts under the path of the base URL. -/
theorem channelSegment : UriParts.Segment "/device-channel".toList :=
  ⟨⟨'d', "evice-channel".toList, by decide +kernel, by decide⟩, by simp [UriParts.inPath]⟩

/-- The transport accepts only a URL whose scheme is a spelling of `https`. The other checks of
the transport are on parts behind the scheme. -/
theorem scheme_of_transport {uri : String → Option Uri} (huri : LowersScheme uri)
    {base root : String} {timeoutMs : ℤ} (h : httpTransport uri base false timeoutMs = .ok root) :
    ∃ name rest, base.toList = name ++ ':' :: rest ∧ name.map Char.toLower = "https".toList ∧
      ∀ c ∈ name, UriParts.inScheme c = true := by
  unfold httpTransport at h
  cases hparse : uri base with
  | none =>
    rw [hparse] at h
    cases h
  | some u =>
    rw [hparse] at h
    dsimp only at h
    by_cases hscheme : u.schemeName = "https"
    · obtain ⟨name, hsplit, hlower⟩ := huri base u hparse
      rw [UriParts.split_scheme] at hsplit
      have hcut : UriParts.cutScheme base.toList =
          (some name, (UriParts.cutScheme base.toList).2) := Prod.ext hsplit rfl
      obtain ⟨heq, -, hname⟩ := UriParts.eq_append_of_cutScheme hcut
      exact ⟨name, _, heq, by rw [← hlower, hscheme], hname⟩
    · rw [if_pos ⟨hscheme, by simp⟩] at h
      cases h

/-- A scheme has no colon in it. -/
theorem ne_colon {name : List Char} (hname : ∀ c ∈ name, UriParts.inScheme c = true) :
    ∀ c ∈ name, decide (c ≠ ':') = true := by
  intro c hc
  have hin := hname c hc
  unfold UriParts.inScheme at hin
  simp only [decide_eq_true_eq, List.mem_cons, not_or] at hin ⊢
  exact hin.1

/-- The test for a text that starts with `https:` is a test of the scheme. A scheme has no colon,
so both texts end at the same place. -/
theorem isPrefix_https_iff {name : List Char} (hname : ∀ c ∈ name, UriParts.inScheme c = true)
    (rest : List Char) : "https:".toList <+: name ++ ':' :: rest ↔ name = "https".toList := by
  have hshort : "https:".toList = "https".toList ++ [':'] := by decide +kernel
  rw [hshort]
  constructor
  · rintro ⟨more, hmore⟩
    rw [List.append_assoc, List.singleton_append] at hmore
    have hfront := congrArg (List.takeWhile fun c => decide (c ≠ ':')) hmore
    rw [UriParts.takeWhile_append_cons (by simp) (by decide),
      UriParts.takeWhile_append_cons (ne_colon hname) (by decide)] at hfront
    exact hfront.symm
  · rintro rfl
    exact ⟨rest, by simp⟩

/-- The URL of the channel, from the parts of the base URL. Slashes are stripped at the end only,
and the scheme does not end in one. -/
theorem toList_channelUrl {base : String} {name rest : List Char}
    (hbase : base.toList = name ++ ':' :: rest) (hname : ∀ c ∈ name, UriParts.inScheme c = true) :
    (channelUrl base).toList = (if name = "https".toList then "wss" else "ws").toList ++
      ':' :: (stripSlashes rest ++ "/device-channel".toList) := by
  have hcolon : (':' : Char) ≠ '/' := by decide
  have hnot : ¬ ∀ c ∈ ':' :: rest, c = '/' := fun h => hcolon (h ':' List.mem_cons_self)
  have hstrip : stripSlashes base.toList = name ++ ':' :: stripSlashes rest := by
    rw [hbase, stripSlashes_append_of_not_all name hnot, stripSlashes_cons hcolon]
  unfold channelUrl replaceScheme
  rw [String.toList_ofList, hstrip, List.dropWhile_append_of_pos (ne_colon hname),
    List.dropWhile_cons_of_neg (by simp), List.append_assoc]
  simp only [ List.isPrefixOf_iff_prefix, isPrefix_https_iff hname]
  rfl

/-! ## The condition -/

/-- The base URL is written as the channel expects it: its scheme is `https` in lower case, it
ends with its path, and it is more than a scheme with slashes. -/
structure WellWritten (base : String) : Prop where
  /-- The scheme is in lower case. -/
  scheme : "https:".toList <+: base.toList
  /-- There is no query, not even an empty one. -/
  query : '?' ∉ base.toList
  /-- There is no fragment. -/
  fragment : '#' ∉ base.toList
  /-- Something else stands behind the slashes. -/
  server : ∀ n, base.toList ≠ "https://".toList ++ List.replicate n '/'

section Rewriting

variable {base : String} {name rest : List Char}

/-- The parts of the URL of the channel behind its scheme. Both schemes consist of characters of
schemes. -/
theorem cutScheme_channelUrl (hbase : base.toList = name ++ ':' :: rest)
    (hname : ∀ c ∈ name, UriParts.inScheme c = true) :
    UriParts.cutScheme (channelUrl base).toList =
      (some (if name = "https".toList then "wss" else "ws").toList,
        stripSlashes rest ++ "/device-channel".toList) := by
  rw [toList_channelUrl hbase hname]
  split
  · exact UriParts.cutScheme_append (by decide) (by simp [UriParts.inScheme])
  · exact UriParts.cutScheme_append (by decide) (by simp [UriParts.inScheme])

/-- Where the scheme is in lower case, authority and path decide. The scheme of the derived
address is then the secure one, so nothing else can go wrong. -/
theorem secured_iff_parts (hbase : base.toList = "https".toList ++ ':' :: rest) :
    Secured base (channelUrl base) ↔
      (UriParts.cutAuthority (stripSlashes rest ++ "/device-channel".toList)).1 =
          (UriParts.cutAuthority rest).1 ∧
        (UriParts.cutAuthority (stripSlashes rest ++ "/device-channel".toList)).2.takeWhile
            UriParts.inPath =
          stripSlashes ((UriParts.cutAuthority rest).2.takeWhile UriParts.inPath) ++
            "/device-channel".toList := by
  have hname : ∀ c ∈ "https".toList, UriParts.inScheme c = true := by simp [UriParts.inScheme]
  have hcut := cutScheme_channelUrl hbase hname
  have hcutBase : UriParts.cutScheme base.toList = (some "https".toList, rest) := by
    rw [hbase]
    exact UriParts.cutScheme_append (by decide) hname
  rw [if_pos rfl] at hcut
  constructor
  · intro h
    have hauthority := h.authority
    have hpath := h.path
    rw [UriParts.split_authority, UriParts.split_authority, hcut, hcutBase] at hauthority
    rw [UriParts.split_path, UriParts.split_path, hcut, hcutBase] at hpath
    exact ⟨hauthority, hpath⟩
  · rintro ⟨hauthority, hpath⟩
    refine ⟨?_, ?_, ?_⟩
    · rw [UriParts.split_scheme, hcut]
    · rw [UriParts.split_authority, UriParts.split_authority, hcut, hcutBase]
      exact hauthority
    · rw [UriParts.split_path, UriParts.split_path, hcut, hcutBase]
      exact hpath

/-- The condition, without the scheme. What is left to say is that no query or fragment follows,
and that there is more than slashes. -/
theorem wellWritten_iff (hbase : base.toList = "https".toList ++ ':' :: rest) :
    WellWritten base ↔ (∀ c ∈ rest, UriParts.inPath c = true) ∧
      ∀ t, rest = '/' :: '/' :: t → ¬ ∀ c ∈ t, c = '/' := by
  have hsplit : base.toList = "https:".toList ++ rest := by
    rw [hbase]
    simp
  have hslashes : "https://".toList = "https:".toList ++ ['/', '/'] := by decide +kernel
  have hmem : ∀ c : Char, c ∉ "https:".toList → (c ∈ base.toList ↔ c ∈ rest) := by
    intro c hc
    rw [hsplit, List.mem_append]
    exact or_iff_right hc
  have hquery := hmem '?' (by decide)
  have hfragment := hmem '#' (by decide)
  constructor
  · intro h
    refine ⟨fun c hc => ?_, fun t ht hall => ?_⟩
    · unfold UriParts.inPath
      refine decide_eq_true fun hin => ?_
      rcases List.mem_cons.mp hin with rfl | hin
      · exact h.query (hquery.mpr hc)
      · exact h.fragment (hfragment.mpr (List.mem_singleton.mp hin ▸ hc))
    · refine h.server t.length ?_
      rw [hsplit, hslashes, List.append_assoc, ht, ← List.eq_replicate_of_mem hall]
      rfl
  · rintro ⟨hrest, hserver⟩
    refine ⟨⟨rest, hsplit.symm⟩, fun hmem => ?_, fun hmem => ?_, fun n hn => ?_⟩
    · have hin := hrest '?' (hquery.mp hmem)
      cases hin
    · have hin := hrest '#' (hfragment.mp hmem)
      cases hin
    · rw [hsplit, hslashes, List.append_assoc] at hn
      exact hserver (List.replicate n '/') (List.append_cancel_left hn)
        fun c hc => List.eq_of_mem_replicate hc

/-- The channel is secured by a well written base URL and by no other one with this scheme. A
query or a fragment would swallow the segment that is put at the end. -/
theorem secured_iff_wellWritten (hbase : base.toList = "https".toList ++ ':' :: rest) :
    Secured base (channelUrl base) ↔ WellWritten base := by
  rw [secured_iff_parts hbase, wellWritten_iff hbase]
  constructor
  · rintro ⟨hauthority, hpath⟩
    refine ⟨fun c hc => ?_, fun t ht hall => ?_⟩
    · by_contra hnot
      obtain ⟨front, t, rfl⟩ := List.append_of_mem hc
      exact UriParts.path_extend front (Bool.eq_false_of_not_eq_true hnot) t channelSegment hpath
    · rw [ht, UriParts.cutAuthority_slashes hall channelSegment] at hauthority
      cases hauthority
  · rintro ⟨hrest, hserver⟩
    rw [UriParts.cutAuthority_extend hrest channelSegment hserver]
    exact ⟨rfl, UriParts.path_append hrest channelSegment⟩

end Rewriting

/-- The channel is secured exactly for the base URLs that are written as it expects. Any other
spelling of the scheme is answered with an address that is not secured. -/
theorem secured_iff {uri : String → Option Uri} (huri : LowersScheme uri) {base root : String}
    (h : httpTransport uri base false = .ok root) :
    channelAddress uri base false = .ok (channelUrl base) ∧
      (Secured base (channelUrl base) ↔ WellWritten base) := by
  obtain ⟨name, rest, hbase, -, hname⟩ := scheme_of_transport huri h
  refine ⟨?_, ?_⟩
  · unfold channelAddress
    rw [h]
    rfl
  · by_cases hscheme : name = "https".toList
    · exact secured_iff_wellWritten (hscheme ▸ hbase)
    · constructor
      · intro hsecured
        have hwss := hsecured.scheme
        rw [UriParts.split_scheme, cutScheme_channelUrl hbase hname, if_neg hscheme] at hwss
        have hne : some "ws".toList ≠ some "wss".toList := by decide
        exact absurd hwss hne
      · intro hwritten
        have hbegins := hwritten.scheme
        rw [hbase] at hbegins
        exact absurd ((isPrefix_https_iff hname rest).mp hbegins) hscheme

/-! ## Two spellings -/

/-- A parser that reads scheme, query and fragment and has a fixed host. It is enough for URLs
without a user and a password, and it refuses a text without a scheme. -/
def plainUri (s : String) : Option Uri :=
  let parts := UriParts.split s.toList
  parts.scheme.map fun name =>
    { schemeName := String.ofList (name.map Char.toLower)
      host := "backend.example"
      userName := ""
      password := ""
      query := String.ofList (parts.query.getD [])
      fragment := String.ofList (parts.fragment.getD []) }

/-- The parser of the sample writes schemes in small letters, as the platform does. -/
theorem lowersScheme_plainUri : LowersScheme plainUri := by
  intro s u hu
  unfold plainUri at hu
  obtain ⟨name, hname, rfl⟩ := Option.map_eq_some_iff.mp hu
  exact ⟨name, hname, String.toList_ofList⟩

/-- A base URL in lower case. -/
theorem secured_iff_sample :
    channelAddress plainUri "https://backend.example/api/v1/" false =
        .ok (channelUrl "https://backend.example/api/v1/") ∧
      (Secured "https://backend.example/api/v1/" (channelUrl "https://backend.example/api/v1/") ↔
        WellWritten "https://backend.example/api/v1/") := by
  have haccepted : httpTransport plainUri "https://backend.example/api/v1/" false =
      .ok "https://backend.example/api/v1" := by decide +kernel
  exact secured_iff lowersScheme_plainUri haccepted

/-- The same base URL in capitals is accepted, and the token travels in clear text. The three
parts are evaluated. -/
theorem capitals_downgrade :
    httpTransport plainUri "HTTPS://backend.example/api/v1/" false =
        .ok "HTTPS://backend.example/api/v1" ∧
      channelAddress plainUri "HTTPS://backend.example/api/v1/" false =
        .ok "ws://backend.example/api/v1/device-channel" ∧
      ¬ Secured "HTTPS://backend.example/api/v1/" "ws://backend.example/api/v1/device-channel" := by
  refine ⟨by decide +kernel, by decide +kernel, fun h => ?_⟩
  have hscheme := h.scheme
  revert hscheme
  decide +kernel

end EdgeClient.Sync
