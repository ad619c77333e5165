import CoroutineRpc.Net.Http.Received
import CoroutineRpc.Rpc.Dispatch

/-! `HttpServlet` and `HttpDispatcher`: from a request to the response that is queued.

A servlet is found under the path of the request. Before it runs, the version and the
`Connection` value of the request are copied into the response; what it does is then
`encode`d into the out buffer of the connection. -/
namespace CoroutineRpc.Net.Http
open Net.Tcp

def setHttpCode (response : HttpResponse) (code : Int) : HttpResponse :=
  {response with responseCode := code, responseInfo := httpCodeToString code}

def setHttpContentType (response : HttpResponse) (contentType : Bytes) : HttpResponse :=
  {response with responseHeader := response.responseHeader.setKeyValue (ascii "Content-Type") contentType}

def setHttpBody (response : HttpResponse) (body : Bytes) : HttpResponse :=
  {response with
    responseBody := body
    responseHeader := response.responseHeader.setKeyValue (ascii "Content-Length") (decimal body.length)}

/-- The `Connection` value of the response. -/
def connectionOf (request : HttpRequest) (version : Bytes) : Bytes :=
  let connection := request.requestHeader.getValue (ascii "Connection")
  if connection = [] then if version = ascii "HTTP/1.0" then ascii "close" else ascii "keep-alive"
  else connection

def setCommParam (request : HttpRequest) (response : HttpResponse) : HttpResponse :=
  let responseVersion := if request.requestVersion = [] then ascii "HTTP/1.1" else request.requestVersion
  {response with
    responseVersion
    responseHeader := response.responseHeader.setKeyValue (ascii "Connection")
      (connectionOf request responseVersion)}

def notFoundBody (path : Bytes) : Bytes :=
  ascii "<html><body><h1>" ++ decimal httpNotFound ++ ascii " " ++ httpCodeToString httpNotFound ++
    ascii "</h1><p>Path " ++ path ++ ascii " was not found.</p></body></html>"

def handleNotFound (request : HttpRequest) (response : HttpResponse) : HttpResponse :=
  setHttpBody (setHttpContentType (setHttpCode response httpNotFound) kDefaultHtmlContentType)
    (notFoundBody request.requestPath)

/-- A servlet and its name. What `handle` does to the request is never looked at. -/
structure HttpServlet where
  servletName : Bytes
  handle : HttpRequest → HttpResponse → HttpResponse

def notFoundHttpServlet : HttpServlet := ⟨ascii "NotFoundHttpServlet", handleNotFound⟩

def normalizePath (path : Bytes) : Bytes :=
  if path = [] then ascii "/"
  else if path.head? = some (byte '/') then path
  else byte '/' :: path

structure HttpDispatcher where
  servlets : Std.ExtTreeMap Bytes HttpServlet compare := ∅

namespace HttpDispatcher

/-- `emplace` keeps what is registered already. -/
def registerServlet (dispatcher : HttpDispatcher) (path : Bytes) (servlet : HttpServlet) :
    HttpDispatcher × Bool :=
  let path := normalizePath path
  if path ∈ dispatcher.servlets then (dispatcher, false)
  else (⟨dispatcher.servlets.insert path servlet⟩, true)

def servletOf (dispatcher : HttpDispatcher) (request : HttpRequest) : HttpServlet :=
  dispatcher.servlets[normalizePath request.requestPath]?.getD notFoundHttpServlet

/-- The response that is given to `encode`. -/
def respond (dispatcher : HttpDispatcher) (request : HttpRequest) : HttpResponse :=
  (dispatcher.servletOf request).handle request (setCommParam request {})

/-- The out buffer after `dispatch`, and the run time. -/
def dispatch (dispatcher : HttpDispatcher) (genMsgNumber : Bytes) (request : HttpRequest)
    (outBuffer : TcpBuffer) : Option (TcpBuffer × Rpc.RunTime) := do
  let runTime := ⟨genMsgNumber, (dispatcher.servletOf request).servletName⟩
  let (outBuffer, _) ← encode outBuffer (dispatcher.respond request)
  pure (outBuffer, runTime)

end HttpDispatcher

/-- The functions that `HttpServlet` offers to `handle`. -/
inductive ServletCall where
  | setHttpCode (code : Int)
  | setHttpContentType (contentType : Bytes)
  | setHttpBody (body : Bytes)

def ServletCall.run (response : HttpResponse) : ServletCall → HttpResponse
  | .setHttpCode code => Http.setHttpCode response code
  | .setHttpContentType contentType => Http.setHttpContentType response contentType
  | .setHttpBody body => Http.setHttpBody response body

/-- A servlet that only calls these functions. -/
def HttpServlet.CallsOnly (servlet : HttpServlet) (allowed : ServletCall → Prop) : Prop :=
  ∀ request response, ∃ calls : List ServletCall, (∀ call ∈ calls, allowed call) ∧
    servlet.handle request response = calls.foldl ServletCall.run response

theorem notFound_callsOnly {allowed : ServletCall → Prop} (hcode : ∀ code, allowed (.setHttpCode code))
    (htype : allowed (.setHttpContentType kDefaultHtmlContentType)) (hbody : ∀ body, allowed (.setHttpBody body)) :
    notFoundHttpServlet.CallsOnly allowed := by
  intro request response
  refine ⟨[.setHttpCode httpNotFound, .setHttpContentType kDefaultHtmlContentType,
    .setHttpBody (notFoundBody request.requestPath)], ?_, rfl⟩
  simp [hcode, htype, hbody]

/-- Every servlet that a dispatcher can find calls only these functions. -/
theorem HttpDispatcher.servletOf_callsOnly {dispatcher : HttpDispatcher} {allowed : ServletCall → Prop}
    (h : ∀ (path : Bytes) (servlet : HttpServlet), dispatcher.servlets[path]? = some servlet →
      servlet.CallsOnly allowed)
    (hnot : notFoundHttpServlet.CallsOnly allowed) (request : HttpRequest) :
    (dispatcher.servletOf request).CallsOnly allowed := by
  rw [servletOf]
  cases hfound : dispatcher.servlets[normalizePath request.requestPath]? with
  | none => exact hnot
  | some servlet => exact h _ servlet hfound

/-- Registering such a servlet keeps this. -/
theorem HttpDispatcher.registerServlet_callsOnly {dispatcher : HttpDispatcher} {allowed : ServletCall → Prop}
    (h : ∀ (path : Bytes) (servlet : HttpServlet), dispatcher.servlets[path]? = some servlet →
      servlet.CallsOnly allowed)
    (path : Bytes) {servlet : HttpServlet} (hservlet : servlet.CallsOnly allowed) :
    ∀ (key : Bytes) (found : HttpServlet), (dispatcher.registerServlet path servlet).1.servlets[key]? = some found →
      found.CallsOnly allowed := by
  intro key found hfound
  unfold registerServlet at hfound
  dsimp only at hfound
  split at hfound
  · exact h key found hfound
  · rw [Std.ExtTreeMap.getElem?_insert] at hfound
    split at hfound
    · exact Option.some.inj hfound ▸ hservlet
    · exact h key found hfound

end CoroutineRpc.Net.Http
