import CoroutineRpc.Comm.StringUtil
import CoroutineRpc.Rpc.RpcCodec
import CoroutineRpc.Text

/-! Requests and responses of HTTP, and their headers.

A header is a map from names in lower case to values. Setting names one after the other
leaves the last value of each (`setAll_lookup`), whatever the case they were given in. -/
namespace CoroutineRpc.Net.Http
open Comm

def kHttpCrlf : Bytes := ascii "\r\n"
def kHttpHeaderEnd : Bytes := ascii "\r\n\r\n"
def kDefaultHtmlContentType : Bytes := ascii "text/html;charset=utf-8"

inductive HttpMethod where
  | unknown
  | get
  | post
deriving DecidableEq

def httpOk : Int := 200
def httpBadRequest : Int := 400
def httpForbidden : Int := 403
def httpNotFound : Int := 404
def httpInternalServerError : Int := 500

def httpCodeToString (code : Int) : Bytes :=
  if code = httpOk then ascii "OK"
  else if code = httpBadRequest then ascii "Bad Request"
  else if code = httpForbidden then ascii "Forbidden"
  else if code = httpNotFound then ascii "Not Found"
  else if code = httpInternalServerError then ascii "Internal Server Error"
  else ascii "Unknown"

def normalizeHeaderKey (key : Bytes) : Bytes := key.map tolower

@[simp] theorem normalizeHeaderKey_idem (key : Bytes) :
    normalizeHeaderKey (normalizeHeaderKey key) = normalizeHeaderKey key := by
  simp [normalizeHeaderKey]

structure HttpHeaderComm where
  maps : StringMap := ∅
deriving DecidableEq

namespace HttpHeaderComm

/-- The empty string stands for a name that is not there. -/
def getValue (header : HttpHeaderComm) (key : Bytes) : Bytes :=
  header.maps[normalizeHeaderKey key]?.getD []

def setKeyValue (header : HttpHeaderComm) (key value : Bytes) : HttpHeaderComm :=
  ⟨header.maps.insert (normalizeHeaderKey key) value⟩

/-- One line of the head, without its end. -/
def line (item : Bytes × Bytes) : Bytes := item.1 ++ ascii ": " ++ item.2

def toHttpString (header : HttpHeaderComm) : Bytes :=
  header.maps.toList.flatMap fun item => line item ++ kHttpCrlf

/-- One `setKeyValue` after the other. -/
def setAll (header : HttpHeaderComm) (items : List (Bytes × Bytes)) : HttpHeaderComm :=
  items.foldl (fun header item => header.setKeyValue item.1 item.2) header

/-- The items that set `key`. -/
def settersOf (items : List (Bytes × Bytes)) (key : Bytes) : List (Bytes × Bytes) :=
  items.filter fun item => normalizeHeaderKey item.1 = key

theorem setKeyValue_lookup (header : HttpHeaderComm) (name value key : Bytes) :
    (header.setKeyValue name value).maps[key]? =
      if normalizeHeaderKey name = key then some value else header.maps[key]? := by
  simp only [setKeyValue, Std.ExtTreeMap.getElem?_insert, Std.LawfulEqCmp.compare_eq_iff_eq]

/-- **The last setting of a name is what the map holds.** -/
theorem setAll_lookup (header : HttpHeaderComm) (items : List (Bytes × Bytes)) (key : Bytes) :
    (header.setAll items).maps[key]? =
      ((settersOf items key).getLast?.map Prod.snd).or header.maps[key]? := by
  induction items generalizing header with
  | nil => rfl
  | cons item items ih =>
    show (setAll (header.setKeyValue item.1 item.2) items).maps[key]? = _
    rw [ih, setKeyValue_lookup]
    by_cases hkey : normalizeHeaderKey item.1 = key
    · have hsetters : settersOf (item :: items) key = item :: settersOf items key :=
        List.filter_cons_of_pos (by simpa using hkey)
      rw [if_pos hkey, hsetters, List.getLast?_cons]
      cases (settersOf items key).getLast? <;> rfl
    · have hsetters : settersOf (item :: items) key = settersOf items key :=
        List.filter_cons_of_neg (by simpa using hkey)
      rw [if_neg hkey, hsetters]

theorem setAll_getValue (items : List (Bytes × Bytes)) (key : Bytes) :
    (setAll {} items).getValue key =
      ((settersOf items (normalizeHeaderKey key)).getLast?.map Prod.snd).getD [] := by
  rw [getValue, setAll_lookup]
  simp

/-- What the map holds was set. -/
theorem mem_setAll {items : List (Bytes × Bytes)} {item : Bytes × Bytes}
    (h : item ∈ (setAll {} items).maps.toList) :
    ∃ setter ∈ items, item = (normalizeHeaderKey setter.1, setter.2) := by
  rw [Std.ExtTreeMap.mem_toList_iff_getElem?_eq_some, setAll_lookup] at h
  cases hlast : (settersOf items item.1).getLast? with
  | none => simp [hlast] at h
  | some setter =>
    rw [hlast, Option.map_some, Option.some_or] at h
    obtain ⟨hmem, hkey⟩ := List.mem_filter.mp (List.mem_of_getLast? hlast)
    exact ⟨setter, hmem, Prod.ext (of_decide_eq_true hkey).symm (Option.some.inj h).symm⟩

/-- **Setting what a map holds makes the map again**, when its names are in lower case. -/
theorem setAll_toList {header : HttpHeaderComm}
    (h : ∀ item ∈ header.maps.toList, normalizeHeaderKey item.1 = item.1) :
    setAll {} header.maps.toList = header := by
  have hmaps : (setAll {} header.maps.toList).maps = header.maps := by
    refine Std.ExtTreeMap.ext_getElem? fun key => ?_
    rw [setAll_lookup]
    cases hlast : (settersOf header.maps.toList key).getLast? with
    | some item =>
      obtain ⟨hmem, hkey⟩ := List.mem_filter.mp (List.mem_of_getLast? hlast)
      rw [decide_eq_true_eq, h item hmem] at hkey
      exact (hkey ▸ Std.ExtTreeMap.mem_toList_iff_getElem?_eq_some.mp hmem).symm
    | none =>
      cases hvalue : header.maps[key]? with
      | none => simp
      | some value =>
        have hmem := Std.ExtTreeMap.mem_toList_iff_getElem?_eq_some.mpr hvalue
        have hsetter : (key, value) ∈ settersOf header.maps.toList key :=
          List.mem_filter.mpr ⟨hmem, decide_eq_true (h _ hmem)⟩
        rw [List.getLast?_eq_none_iff.mp hlast] at hsetter
        cases hsetter
  calc setAll {} header.maps.toList = ⟨(setAll {} header.maps.toList).maps⟩ := rfl
    _ = header := by rw [hmaps]

end HttpHeaderComm

structure HttpRequest extends Rpc.AbstractData where
  requestMethod : HttpMethod := .unknown
  requestPath : Bytes := ascii "/"
  requestQuery : Bytes := []
  requestVersion : Bytes := ascii "HTTP/1.1"
  requestHeader : HttpHeaderComm := {}
  requestBody : Bytes := []
  queryMaps : StringMap := ∅
deriving DecidableEq

structure HttpResponse extends Rpc.AbstractData where
  responseVersion : Bytes := ascii "HTTP/1.1"
  responseCode : Int := httpOk
  responseInfo : Bytes := httpCodeToString httpOk
  responseHeader : HttpHeaderComm := {}
  responseBody : Bytes := []
deriving DecidableEq

end CoroutineRpc.Net.Http
