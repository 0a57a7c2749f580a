import NodeFlow.Fault
import NodeFlow.Text.Upper
import NodeFlow.Url.Basic

/-!
# Routes of the service

What a request asks for is found by its method and the path of its address.  A path that only
lacks or has too much of a slash at its end is redirected; a known path with another method is
refused.  Besides what the editor answers there are pages about the service itself.

Main results:

- Types `Route` and `RouteMatch`; definition `Route.find`.
- Definition `Route.target`: the path of an address under the service.
- Theorem `Route.find_of_mem`: every route of the table is found.
-/

namespace NodeFlow

/-- What a request can ask for. -/
inductive Route where
  | greet
  | loadGraph
  | showGraph
  | compile
  | submit
  | showQueue
  | refresh
  | event
  deriving DecidableEq, Inhabited

/-- The ways to find something to answer. -/
inductive RouteMatch where
  | found (r : Route)
  | page
  | wrongMethod
  | redirected
  | unknown
  deriving DecidableEq, Inhabited

namespace Route

/-- The routes with their methods and paths. -/
def table : List (String × String × Route) :=
  [("POST", "/api/v1/graph", .loadGraph), ("GET", "/api/v1/graph", .showGraph),
    ("POST", "/api/v1/prompt/compile", .compile), ("POST", "/api/v1/prompt", .submit),
    ("GET", "/api/v1/queue", .showQueue), ("POST", "/api/v1/node-defs/refresh", .refresh),
    ("POST", "/api/v1/events", .event), ("GET", "/api/", .greet)]

/-- The paths of the pages. -/
def pages : List String := ["/openapi.json", "/docs", "/docs/oauth2-redirect", "/redoc"]

/-- The methods that ask for a page. -/
def pageMethods : List String := ["GET", "HEAD"]

/-- Whether a path is the given one; a line break at its end does not count. -/
def isPath (path known : String) : Bool := path == known || path == known ++ "\n"

/-- Whether some route has the path. -/
def hasPath (path : String) : Bool := table.any fun e => isPath path e.2.1

/-- Whether some page has the path. -/
def isPage (path : String) : Bool := pages.any (isPath path)

/-- A path with the slashes at its end taken away, or one put there. -/
def toggleSlash (path : String) : String :=
  if path.toList.getLast? = some '/' then Text.stripEnd '/' path else path ++ "/"

/-- The route of a method in upper case and a path. -/
def find (method path : String) : RouteMatch :=
  match table.find? fun e => e.1 == method && isPath path e.2.1 with
  | some e => .found e.2.2
  | none =>
    if isPage path && pageMethods.contains method then .page
    else if isPage path || hasPath path then .wrongMethod
    else if path ≠ "/" && (isPage (toggleSlash path) || hasPath (toggleSlash path)) then
      .redirected
    else .unknown

/-- Every route of the table is found by its method and path. -/
theorem find_of_mem {e : String × String × Route} (h : e ∈ table) :
    find e.1 e.2.1 = .found e.2.2 := by
  have all : ∀ e ∈ table, find e.1 e.2.1 = .found e.2.2 := by decide +kernel
  exact all e h

/-- The address of the service; requests are for paths under it. -/
def root : Url := { scheme := "http", host := "localhost", path := "/" }

/-- The path of an address under the service. -/
def target (address : String) : Except Fault String :=
  match root.join? address with
  | some u => .ok u.target
  | none => .error .badAddress

end Route

end NodeFlow
