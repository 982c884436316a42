import AiryFS.Mounts.MountTable
import AiryFS.Mounts.Routes
import AiryFS.Sites.FileResponse

/-! Published sites: the files of a volume below a prefix, served to anyone.

A sub-path is decoded piece by piece, so a piece may spell separators and dot segments of its
own. How `localeCompare` orders names is left to the platform.
-/

set_option autoImplicit false

namespace AiryFS

open Foundation
open Mounts (decodeURIComponent encodeURIComponent)

def TRASH_NAME : Text := ".airyfs-trash".toList

def TRASH_ROOT : Text := '/' :: TRASH_NAME

namespace Sites

/-! ## Content types -/

def MIME_TYPES : List (String × String) :=
  [("html", "text/html; charset=utf-8"), ("htm", "text/html; charset=utf-8"), ("css", "text/css; charset=utf-8"),
    ("js", "text/javascript; charset=utf-8"), ("mjs", "text/javascript; charset=utf-8"),
    ("json", "application/json; charset=utf-8"), ("map", "application/json; charset=utf-8"),
    ("txt", "text/plain; charset=utf-8"), ("md", "text/markdown; charset=utf-8"), ("xml", "application/xml; charset=utf-8"),
    ("svg", "image/svg+xml"), ("png", "image/png"), ("jpg", "image/jpeg"), ("jpeg", "image/jpeg"), ("gif", "image/gif"),
    ("webp", "image/webp"), ("avif", "image/avif"), ("ico", "image/x-icon"), ("woff", "font/woff"),
    ("woff2", "font/woff2"), ("ttf", "font/ttf"), ("otf", "font/otf"), ("pdf", "application/pdf"),
    ("wasm", "application/wasm"), ("zip", "application/zip"), ("webmanifest", "application/manifest+json"),
    -- What the object literal inherits, as a header spells it.
    ("constructor", "function Object() \x7b [native code] \x7d"), ("__proto__", "[object Object]")]

/-- No extension of the table has a letter that only a letter outside ASCII is lowered to. -/
def lowerCase (text : Text) : Text := text.map Char.toLower

def extension (path : Text) : Option Text :=
  let name := path.reverse.takeWhile (· ≠ '/')
  if '.' ∈ name then some (name.takeWhile (· ≠ '.')).reverse else none

def contentTypeFor (path : Text) : Text :=
  match extension path with
  | none => "application/octet-stream".toList
  | some ext =>
    match MIME_TYPES.find? fun entry => entry.1.toList = lowerCase ext with
    | some entry => entry.2.toList
    | none => "application/octet-stream".toList

/-! ## Records -/

structure SiteRecord where
  pathPrefix : Text
  indexDocument : Text
  spa : Bool
  directoryListing : Bool
  cacheControl : Option Text
  /-- `writeSite` stores nothing else. -/
  normal : Auth.normalizePath pathPrefix = pathPrefix

def writeSite (pathPrefix indexDocument : Text) (spa directoryListing : Bool) (cacheControl : Option Text) : SiteRecord where
  pathPrefix := Auth.normalizePath pathPrefix
  indexDocument := indexDocument
  spa := spa
  directoryListing := directoryListing
  cacheControl := cacheControl
  normal := Auth.normalizePath_idem pathPrefix

/-! ## Serving -/

def notPublished : Failure := .http 404 "NOT_FOUND" "No published file for this path"

def resolveUnder (root subPath : Text) : Except Failure Text :=
  let normalizedRoot := Auth.normalizePath root
  let resolved := Auth.normalizePath (normalizedRoot ++ '/' :: subPath)
  if normalizedRoot ≠ ['/'] ∧ resolved ≠ normalizedRoot ∧ ¬(normalizedRoot ++ ['/']).isPrefixOf resolved then
    .error notPublished
  else .ok resolved

def isFile (path : Text) : Serving Bool :=
  tryCatch (do return isRegular (← stat path).mode) fun _ => return false

def isDirectoryAt (path : Text) : Serving Bool :=
  tryCatch (do return isDirectory (← stat path).mode) fun _ => return false

def escapeCharacter (character : Char) : Text :=
  match character with
  | '&' => "&amp;".toList
  | '<' => "&lt;".toList
  | '>' => "&gt;".toList
  | '"' => "&quot;".toList
  | other => if other.toNat = 0x27 then "&#39;".toList else [other]

def escapeHtml (value : Text) : Text := value.flatMap escapeCharacter

def indexRow (pathname : Text) (entry : Text × Bool) : Text :=
  let slash := if entry.2 then ['/'] else []
  "<li><a href=\"".toList ++ escapeHtml (pathname ++ encodeURIComponent entry.1 ++ slash) ++ "\">".toList ++
    escapeHtml (entry.1 ++ slash) ++ "</a></li>".toList

def indexPage (pathname : Text) (rows : List Text) : Text :=
  let title := escapeHtml ("Index of ".toList ++ pathname)
  "<!doctype html><html><head><meta charset=\"utf-8\"><title>".toList ++ title ++ "</title></head><body><h1>".toList ++ title ++
    "</h1><ul>".toList ++ rows.flatten ++ "</ul></body></html>".toList

section Platform
variable (localeCompare : Text → Text → Int) (parse : Text → Option Int)

def directoryIndex (path : Text) (request : Request) (atRoot : Bool) (cacheControl : Option Text) : Serving Response := do
  let entries ← Asking.consult (Question.entries path (if atRoot && path = ['/'] then some TRASH_NAME else none)) fun found => found
  let entries := entries.mergeSort fun left right => localeCompare left.1 right.1 ≤ 0
  let pathname := if ['/'].isSuffixOf request.pathname then request.pathname else request.pathname ++ ['/']
  let rows := entries.map (indexRow pathname)
  let rows := if atRoot then rows else "<li><a href=\"../\">../</a></li>".toList :: rows
  let body := Utf8.encode (indexPage request.pathname rows)
  return {
    status := 200
    headers := [("Content-Type", "text/html; charset=utf-8".toList), ("Content-Length", integerText 10 body.length),
      ("Cache-Control", cacheControl.getD "no-cache".toList)]
    body := if request.method = "HEAD".toList then none else some ⟨body, none⟩ }

def withPublicHeaders (response : Response) (contentType : Text) (cacheControl : Option Text) : Response :=
  let headers := response.headers.set "Content-Type" contentType
  { response with headers := match given cacheControl with
    | some value => headers.set "Cache-Control" value
    | none => headers }

/-- The response with one file of the site. -/
def publicFile (site : SiteRecord) (path : Text) (request : Request) : Serving Response := do
  return withPublicHeaders (← fileResponse parse path request) (contentTypeFor path) site.cacheControl

/-- The file that a path without a listing or a fallback stands for. -/
def findTarget (site : SiteRecord) (trimmed : Text) (wantsIndex : Bool) : Serving (Option Text) := do
  let indexed := trimmed ++ '/' :: site.indexDocument
  let primary ← Asking.lift (resolveUnder site.pathPrefix (if wantsIndex then indexed else trimmed))
  if ← isFile primary then return some primary
  else if wantsIndex then return none
  else do
    -- A path without a trailing slash may still name a directory with an index.
    let asDirIndex ← Asking.lift (resolveUnder site.pathPrefix indexed)
    if ← isFile asDirIndex then return some asDirIndex else return none

/-- What a site whose path is no file serves in its place. -/
def serveFallback (site : SiteRecord) (request : Request) : Serving Response :=
  if site.spa then do
    let fallback ← Asking.lift (resolveUnder site.pathPrefix site.indexDocument)
    if ← isFile fallback then publicFile parse site fallback request else throw notPublished
  else throw notPublished

def serveListing (site : SiteRecord) (requested : Text) (request : Request) : Serving Response := do
  if site.directoryListing then
    if ← isDirectoryAt requested then
      directoryIndex localeCompare requested request (requested = site.pathPrefix) site.cacheControl
    else serveFallback parse site request
  else serveFallback parse site request

def slashless (subPath : Text) : Text := subPath.dropWhile (· = '/')

/-- What the checks of `serveSite` refuse before anything is resolved. -/
def Refused (site : SiteRecord) (subPath : Text) : Prop :=
  Auth.AtOrUnder TRASH_ROOT site.pathPrefix ∨ site.pathPrefix = ['/'] ∧ Auth.AtOrUnder TRASH_NAME (slashless subPath)

instance (site : SiteRecord) (subPath : Text) : Decidable (Refused site subPath) := inferInstanceAs (Decidable (_ ∨ _))

def serveSite (site : SiteRecord) (subPath : Text) (request : Request) : Serving Response := do
  Asking.lift (refuse (Refused site subPath) notPublished)
  let trimmed := slashless subPath
  let wantsIndex : Bool := trimmed = [] ∨ ['/'].isSuffixOf subPath
  let requested ← Asking.lift (resolveUnder site.pathPrefix trimmed)
  match ← findTarget site trimmed wantsIndex with
  | some target => publicFile parse site target request
  | none => serveListing localeCompare parse site requested request

/-- The decoded rest of `/s/<volume>/<path...>`. -/
def subPathOf (pathname : Text) : Except Failure Text := do
  return '/' :: ['/'].intercalate (← ((fields '/' pathname).drop 2).mapM decodeURIComponent)

def handleSiteRequest (site : Option SiteRecord) (request : Request) : Serving Response := do
  Asking.lift (refuse (request.method ≠ "GET".toList ∧ request.method ≠ "HEAD".toList)
    (.http 405 "METHOD_NOT_ALLOWED" "Method not allowed"))
  let site ← Asking.lift (required site (.http 404 "NOT_PUBLISHED" "This volume has no published site"))
  let subPath ← Asking.lift (subPathOf request.pathname)
  serveSite localeCompare parse site subPath request

end Platform

end Sites

end AiryFS
