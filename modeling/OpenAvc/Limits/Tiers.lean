import OpenAvc.Data.Fnmatch
import OpenAvc.Panels.RequestOrigin

/-! Which budget a request is metered in, and in whose bucket. -/

namespace OpenAvc.Limits

/-- The tiers of the rate limiter. A request that is skipped has none. -/
inductive Tier
  | openTier
  | standard
  | control
  | strict
  | media
  deriving DecidableEq

/-- `path.startswith(p)` -/
def startsWith (path : Text) (p : String) : Bool :=
  (text p).isPrefixOf path

/-- `needle in path` -/
def includes (path : Text) (needle : String) : Bool :=
  path.tails.any (text needle).isPrefixOf

/-- `_under` -/
def under (path root : Text) : Bool :=
  path = root || (root ++ [47]).isPrefixOf path

/-- `_SKIP_PREFIXES` -/
def skipPrefixes : List String :=
  ["/panel", "/programmer", "/docs", "/openapi.json", "/ws", "/isc/ws", "/api/push/"]

/-- `_STATIC_RENDER_FAMILIES`, where `none` is the wildcard. -/
def staticRenderFamilies : List (List (Option Text)) :=
  [[some (text "api"), some (text "projects"), none, some (text "assets")],
    [some (text "api"), some (text "projects"), none, some (text "ui")],
    [some (text "api"), some (text "plugins"), none, some (text "panel")],
    [some (text "api"), some (text "plugins"), none, some (text "files")]]

/-- `[s for s in path.split("/") if s]` -/
def segments (path : Text) : List Text :=
  (path.splitOn 47).filter (· ≠ [])

/-- `_is_static_render_path` -/
def isStaticRenderPath (path : Text) : Bool :=
  staticRenderFamilies.any fun family =>
    family.length < (segments path).length &&
      (family.zip (segments path)).all fun u => u.1 = none || u.1 = some u.2

/-- `_OPEN_EXACT` -/
def openExact : List String :=
  ["/api/status", "/api/health", "/api/cloud/status", "/api/startup-status", "/api/auth/required",
    "/api/setup/status", "/api/certificate", "/api/panel/access"]

/-- `_CONTROL_ROOTS` -/
def controlRoots : List String :=
  ["/api/devices", "/api/discovery", "/api/drivers", "/api/driver-definitions", "/api/python-drivers",
    "/api/isc", "/api/events", "/api/audit", "/api/command-files"]

/-- The roots that a read is metered with the commissioning budget under. -/
def readRoots : List String :=
  ["/api/devices", "/api/discovery", "/api/drivers"]

/-- `str.upper` of a method, which is ASCII. -/
def upper (method : Text) : Text :=
  method.map fun c => if 97 ≤ c ∧ c ≤ 122 then c - 32 else c

/-- What plugins have registered: `_media_patterns` and `_extra_standard_prefixes`. -/
structure Registry where
  mediaPatterns : List (Text × List (Option Text × Text)) := []
  extraStandardPrefixes : List Text := []

/-- `register_media_patterns` -/
def Registry.registerMediaPatterns (r : Registry) (mount : Text) (patterns : List (Option Text × Text)) : Registry :=
  if patterns = [] then r else { r with mediaPatterns := Dict.set r.mediaPatterns mount patterns }

/-- `unregister_media_patterns` -/
def Registry.unregisterMediaPatterns (r : Registry) (mount : Text) : Registry :=
  { r with mediaPatterns := r.mediaPatterns.filter (·.1 ≠ mount) }

/-- `register_standard_prefix` -/
def Registry.registerStandardPrefix (r : Registry) (mount : Text) : Registry :=
  { r with extraStandardPrefixes := r.extraStandardPrefixes.insert mount }

/-- `unregister_standard_prefix` -/
def Registry.unregisterStandardPrefix (r : Registry) (mount : Text) : Registry :=
  { r with extraStandardPrefixes := r.extraStandardPrefixes.filter (· ≠ mount) }

/-- `_is_media_path` -/
def Registry.isMediaPath (r : Registry) (method path : Text) : Bool :=
  r.mediaPatterns.any fun mount =>
    under path mount.1 &&
      let rest := path.drop mount.1.length
      let suffix := if rest = [] then [47] else rest
      mount.2.any fun pattern =>
        (pattern.1 = none || pattern.1 = some (upper method)) && Fnmatch.fnmatch id suffix pattern.2

/-- The `POST` requests of the strict tier. -/
def isStrict (path : Text) : Bool :=
  path = text "/api/auth/session" || path = text "/api/panel/unlock" || path = text "/api/panel/access/claim" ||
    startsWith path "/api/cloud/" || (startsWith path "/api/backups/" && includes path "/restore") ||
    path = text "/api/project/export" ||
    (startsWith path "/api/library/" &&
      ((text "/export").isSuffixOf path || (text "/logins").isSuffixOf path))

/-- `method in ("GET", "HEAD")` -/
def isRead (method : Text) : Bool :=
  method = text "GET" || method = text "HEAD"

/-- `_classify`, where `none` is `"skip"`. `_OPEN_PREFIXES` is empty. -/
def Registry.classify (r : Registry) (method path : Text) : Option Tier :=
  if r.isMediaPath method path then some .media
  else if r.extraStandardPrefixes.any (under path) then some .standard
  else if skipPrefixes.any (startsWith path) then none
  else if isRead method && isStaticRenderPath path then none
  else if !startsWith path "/api/" then none
  else if openExact.any (path = text ·) then some .openTier
  else if method = text "POST" && isStrict path then some .strict
  else if path = text "/api/project" && method = text "PUT" then some .control
  else if (if isRead method then readRoots else controlRoots).any (under path <| text ·) then some .control
  else some .standard

/-- A request, with where it came from. -/
structure Request where
  method : Text
  path : Text
  origin : Panels.Request

/-- `TUNNEL_BUCKET_KEY` -/
def tunnelBucketKey : Text := text "cloud-tunnel"

variable {ip : Panels.IpAddress} (proxies : Panels.Proxies ip)

/-- `_client_key`: the bucket, and whether the request is exempt. -/
def clientKey (origin : Panels.Request) : Text × Bool :=
  if origin.tunneled then (tunnelBucketKey, false)
  else
    match Panels.forwardedClient proxies origin with
    | some forwarded => (forwarded, false)
    | none =>
      match origin.client with
      | some host => (host, host ∈ Panels.loopbackHosts)
      | none => (text "unknown", false)

theorem startsWith_api {path : Text} (api : startsWith path "/api/" = true) :
    ∃ rest, path = 47 :: 97 :: 112 :: 105 :: 47 :: rest := by
  obtain ⟨rest, shape⟩ := List.isPrefixOf_iff_prefix.mp api
  exact ⟨rest, shape.symm⟩

/-- A request that changes something under `/api/` is always metered, device push traffic apart. -/
theorem Registry.classify_write {r : Registry} {method path : Text} (api : startsWith path "/api/" = true)
    (push : startsWith path "/api/push/" = false) (write : isRead method = false) :
    r.classify method path ≠ none := by
  have others : skipPrefixes.any (startsWith path) = false := by
    obtain ⟨rest, rfl⟩ := startsWith_api api
    have heads : skipPrefixes.dropLast.any (startsWith (47 :: 97 :: 112 :: 105 :: 47 :: rest)) = false := by
      simp [skipPrefixes, startsWith, text, List.isPrefixOf]
    have parts : skipPrefixes = skipPrefixes.dropLast ++ ["/api/push/"] := rfl
    rw [parts, List.any_append, heads]
    simp [push]
  unfold Registry.classify
  rw [others, write, api]
  split_ifs <;> simp_all

end OpenAvc.Limits
