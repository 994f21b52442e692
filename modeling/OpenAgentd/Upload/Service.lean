import OpenAgentd.Lib.Dict
import OpenAgentd.Lib.FirstFree
import OpenAgentd.Lib.Suffix
import OpenAgentd.Schemas.Chat

/-!
# Attachments

The part of the agent service that takes uploads: each attachment gets a category, its content is checked, its name
is made safe and unlike the names in the uploads directory, and the bytes are written. File names are lists of
characters. The directory is one of files and folders, without links; there is none before the first upload. The
route that serves an upload is the one for a session whose row names the workspace of the uploads.
-/

namespace OpenAgentd.Upload
open Lib

inductive Category where
  | text
  | image
  | document
  | audio
  | video
  | file
deriving DecidableEq

def Category.str : Category → String
  | .text => "text"
  | .image => "image"
  | .document => "document"
  | .audio => "audio"
  | .video => "video"
  | .file => "file"

/-- An inbound file, read into memory. -/
structure RawAttachment where
  filename : List Char
  contentType : Option (List Char)
  data : List UInt8
  source : Option String
deriving DecidableEq

/-- A failed check, with the HTTP status of the route. -/
structure AttachmentError where
  message : String
  status : Nat
deriving DecidableEq

/-- An entry of the uploads directory. -/
inductive Entry where
  | file (data : List UInt8)
  | folder
deriving DecidableEq

/-- The uploads directory, if it has been made. -/
abbrev Uploads := Option (Dict (List Char) Entry)

/-- What stands in the uploads directory under a name. -/
def Uploads.node? (d : Uploads) (name : List Char) : Option Entry := d.bind (·.get? name)

/-- The metadata of a stored attachment. -/
structure Meta where
  filename : List Char
  path : String
  workspacePath : String
  originalName : List Char
  mediaType : List Char
  category : Category
  url : String
  source : Option String

def attachmentSizeLimit : Nat := 50 * 1024 * 1024

/-- `SIZE_LIMITS` -/
def sizeLimits : Category → Nat
  | .text => attachmentSizeLimit
  | .image => attachmentSizeLimit
  | .document => attachmentSizeLimit
  | .audio => attachmentSizeLimit
  | .video => attachmentSizeLimit
  | .file => attachmentSizeLimit

def globalSizeLimit : Nat := 50 * 1024 * 1024

def mimeCategory : List (String × Category) :=
  [("text/plain", .text), ("text/csv", .text), ("text/tab-separated-values", .text), ("text/markdown", .text),
   ("application/json", .text), ("application/x-ndjson", .text), ("text/javascript", .text),
   ("application/javascript", .text), ("text/typescript", .text), ("application/typescript", .text),
   ("text/x-python", .text), ("text/x-python-script", .text), ("text/x-go", .text), ("text/x-rustsrc", .text),
   ("text/x-ruby", .text), ("text/x-java-source", .text), ("text/x-csrc", .text), ("text/x-c++src", .text),
   ("text/x-chdr", .text), ("text/x-csharp", .text), ("text/x-sh", .text), ("application/x-sh", .text),
   ("text/x-shellscript", .text), ("application/x-shellscript", .text), ("application/x-yaml", .text),
   ("text/yaml", .text), ("text/x-yaml", .text), ("application/toml", .text), ("text/x-toml", .text),
   ("application/xml", .text), ("text/xml", .text), ("text/css", .text), ("text/x-sql", .text),
   ("application/x-sql", .text), ("text/x-rsrc", .text), ("text/x-scala", .text), ("text/x-swift", .text),
   ("text/x-kotlin", .text), ("text/x-php", .text), ("application/x-httpd-php", .text), ("image/svg+xml", .text),
   ("text/html", .document), ("application/xhtml+xml", .document), ("image/jpeg", .image), ("image/png", .image),
   ("image/gif", .image), ("image/webp", .image), ("image/bmp", .image), ("image/tiff", .image),
   ("application/pdf", .document),
   ("application/vnd.openxmlformats-officedocument.wordprocessingml.document", .document), ("audio/mpeg", .audio),
   ("audio/mp4", .audio), ("audio/wav", .audio), ("audio/webm", .audio), ("audio/ogg", .audio),
   ("audio/flac", .audio), ("video/mp4", .video), ("video/webm", .video), ("video/ogg", .video),
   ("video/quicktime", .video)]

def extCategory : List (String × Category) :=
  [(".txt", .text), (".csv", .text), (".tsv", .text), (".md", .text), (".markdown", .text), (".json", .text),
   (".ndjson", .text), (".jsonl", .text), (".py", .text), (".pyi", .text), (".js", .text), (".mjs", .text),
   (".cjs", .text), (".jsx", .text), (".ts", .text), (".tsx", .text), (".go", .text), (".rs", .text), (".rb", .text),
   (".java", .text), (".kt", .text), (".kts", .text), (".swift", .text), (".c", .text), (".cpp", .text),
   (".cc", .text), (".cxx", .text), (".h", .text), (".hpp", .text), (".cs", .text), (".php", .text), (".sh", .text),
   (".bash", .text), (".zsh", .text), (".fish", .text), (".ps1", .text), (".sql", .text), (".graphql", .text),
   (".gql", .text), (".proto", .text), (".tf", .text), (".tfvars", .text), (".scala", .text), (".clj", .text),
   (".ex", .text), (".exs", .text), (".lua", .text), (".r", .text), (".R", .text), (".jl", .text), (".dart", .text),
   (".vim", .text), (".yaml", .text), (".yml", .text), (".toml", .text), (".ini", .text), (".cfg", .text),
   (".conf", .text), (".env", .text), (".xml", .text), (".svg", .text), (".css", .text), (".scss", .text),
   (".sass", .text), (".less", .text), (".mdx", .text), (".rst", .text), (".tex", .text), (".log", .text),
   (".diff", .text), (".patch", .text), (".jpg", .image), (".jpeg", .image), (".png", .image), (".gif", .image),
   (".webp", .image), (".bmp", .image), (".tif", .image), (".tiff", .image), (".pdf", .document),
   (".docx", .document), (".html", .document), (".htm", .document), (".mp3", .audio), (".m4a", .audio),
   (".wav", .audio), (".ogg", .audio), (".flac", .audio), (".mp4", .video), (".webm", .video), (".mov", .video)]

/-- The bytes with which the content of a type begins. -/
def magicBytes : List (String × List (List UInt8 × Nat)) :=
  [("image/jpeg", [([0xff, 0xd8, 0xff], 0)]),
   ("image/png", [([0x89, 0x50, 0x4e, 0x47, 0x0d, 0x0a, 0x1a, 0x0a], 0)]),
   ("image/gif", [([0x47, 0x49, 0x46, 0x38, 0x37, 0x61], 0), ([0x47, 0x49, 0x46, 0x38, 0x39, 0x61], 0)]),
   ("image/webp", [([0x52, 0x49, 0x46, 0x46], 0)]),
   ("image/bmp", [([0x42, 0x4d], 0)]),
   ("application/pdf", [([0x25, 0x50, 0x44, 0x46], 0)]),
   ("application/vnd.openxmlformats-officedocument.wordprocessingml.document", [([0x50, 0x4b], 0)])]

def maxFilenameLen : Nat := 200
def filenameStemMaxLen : Nat := 160

/-! ## Texts -/

/-- `str.rstrip` -/
def rstrip (s : List Char) : List Char := (s.reverse.dropWhile pyIsSpace).reverse

/-- `str.strip` for the characters `p`. -/
def strip (p : Char → Bool) (s : List Char) : List Char := ((s.dropWhile p).reverse.dropWhile p).reverse

/-- `str.lower`, as far as a table of ASCII texts can tell: the Kelvin sign is the one other letter that becomes one
of them. -/
def lower (s : List Char) : List Char := s.map fun c => if c = '\u212a' then 'k' else c.toLower

/-- `PurePath(s).name` -/
def pathName (s : List Char) : List Char :=
  ((s.splitOn '/').filter fun part => part ≠ [] ∧ part ≠ ['.']).getLast?.getD []

/-- `PurePath(s).suffix` -/
def pathSuffix (s : List Char) : List Char := (splitext '.' (pathName s)).2

/-- `PurePath(s).stem` -/
def pathStem (s : List Char) : List Char := (splitext '.' (pathName s)).1

/-- `html.escape` -/
def htmlEscape (s : List Char) : List Char :=
  s.flatMap fun c =>
    if c = '&' then "&amp;".toList
    else if c = '<' then "&lt;".toList
    else if c = '>' then "&gt;".toList
    else if c.toNat = 0x22 then "&quot;".toList
    else if c.toNat = 0x27 then "&#x27;".toList
    else [c]

/-! ## Names -/

def uploadWord : List Char := "upload".toList

/-- `_default_ext` -/
def defaultExt : Category → List Char
  | .text => ".txt".toList
  | .image => ".jpg".toList
  | .document => ".pdf".toList
  | .audio => ".mp3".toList
  | .video => ".mp4".toList
  | .file => ".bin".toList

/-- The characters of `_FILENAME_RE`. -/
def isUnsafe (c : Char) : Bool := c.toNat ≤ 0x1f || c.toNat = 0x7f || c = '/' || c = '\\'

/-- `_FILENAME_RE.sub`: a run of such characters becomes one underscore. -/
def subUnsafe : Bool → List Char → List Char
  | _, [] => []
  | inRun, c :: s =>
    if isUnsafe c then if inRun then subUnsafe true s else '_' :: subUnsafe true s
    else c :: subUnsafe false s

/-- `s.split("#L", 1)[0]` -/
def beforeAnchor : List Char → List Char
  | '#' :: 'L' :: _ => []
  | c :: s => c :: beforeAnchor s
  | [] => []

/-- `x or y` for texts. -/
def orElse (x y : List Char) : List Char := if x = [] then y else x

/-- The name of an upload without its directories and bad characters. -/
def cleanName (rawName : List Char) (category : Category) : List Char :=
  let leaf := pathName (orElse rawName uploadWord)
  orElse (strip (· = '.') (strip pyIsSpace (subUnsafe false leaf))) (uploadWord ++ defaultExt category)

/-- The extension of the stored name. -/
def uploadExt (rawName : List Char) (category : Category) : List Char :=
  orElse (pathSuffix (beforeAnchor (cleanName rawName category))) (defaultExt category)

/-- The stem of the stored name. -/
def uploadStem (rawName : List Char) (category : Category) : List Char :=
  let stem := orElse (pathStem (beforeAnchor (cleanName rawName category))) uploadWord
  orElse (rstrip (stem.take filenameStemMaxLen)) uploadWord

/-- `_sanitize_upload_filename` -/
def sanitizeUploadFilename (rawName : List Char) (category : Category) : List Char :=
  let ext := uploadExt rawName category
  let stem := uploadStem rawName category
  let candidate := stem ++ ext
  if candidate.length ≤ maxFilenameLen then candidate
  else
    let allowedStem := max 1 (maxFilenameLen - ext.length)
    rstrip (stem.take allowedStem) ++ ext

/-- The number behind a name. -/
def numberSuffix (index : Nat) : List Char := ' ' :: '(' :: Nat.toDigits 10 index ++ [')']

/-- The names that are tried for a file: itself, and behind it the numbered ones. -/
def variant (filename : List Char) : Nat → List Char
  | 0 => filename
  | index + 1 =>
    let stem := orElse (pathStem filename) uploadWord
    let ext := pathSuffix filename
    let suffix := numberSuffix (index + 1)
    let allowedStem := max 1 (maxFilenameLen - ext.length - suffix.length)
    let trimmedStem := orElse (rstrip (stem.take allowedStem)) uploadWord
    trimmedStem ++ suffix ++ ext

/-- A name that is there. -/
def Uploads.exists (d : Uploads) (name : List Char) : Bool := (d.node? name).isSome

/-- `_dedupe_upload_filename`; with two tries more than there are entries the loop comes to its end. -/
def dedupeUploadFilename (d : Uploads) (filename : List Char) : List Char :=
  variant filename (firstFree d.exists (variant filename) ((d.map (·.keys.length)).getD 0 + 2) 0)

/-! ## Checks -/

/-- The text of a content type without its parameters. -/
def bareMime (contentType : Option (List Char)) : List Char :=
  strip pyIsSpace ((contentType.getD []).takeWhile (· ≠ ';'))

/-- `categorize` -/
def categorize (filename : List Char) (contentType : Option (List Char)) : Option Category :=
  match mimeCategory.lookup (.ofList (lower (bareMime contentType))) with
  | some category => some category
  | none => extCategory.lookup (.ofList (lower (pathSuffix filename)))

/-- `_validate_magic_bytes` -/
def validateMagicBytes (data : List UInt8) (mime : List Char) : Bool :=
  match magicBytes.lookup (.ofList mime) with
  | none => true
  | some sigs => sigs.any fun sig => data.length > sig.2 && (data.drop sig.2).take sig.1.length = sig.1

/-- `_validate_ext_mime_consistency` -/
def validateExtMimeConsistency (filename mime : List Char) : Bool :=
  match extCategory.lookup (.ofList (lower (pathSuffix filename))), mimeCategory.lookup (.ofList mime) with
  | some extCat, some mimeCat => extCat = mimeCat
  | _, _ => true

def mediaType (att : RawAttachment) : List Char :=
  orElse (bareMime att.contentType) "application/octet-stream".toList

/-- The name for an attachment before it is made unlike the others. -/
def safeStorageName (att : RawAttachment) (category : Category) : List Char :=
  sanitizeUploadFilename (orElse att.filename uploadWord) category

/-- What is wrong with an attachment. -/
def checkAttachment (att : RawAttachment) (category : Category) : Option AttachmentError :=
  let name := String.ofList att.filename
  let size := att.data.length
  let limit := sizeLimits category
  let mime := mediaType att
  let safeName := String.ofList (htmlEscape (safeStorageName att category))
  if size = 0 then some ⟨s!"'{name}' is empty (0 bytes).", 422⟩
  else if size > limit then
    some ⟨s!"'{name}' is {size / 1024} KB — exceeds the {limit / 1024} KB limit for " ++ category.str ++ " files.", 413⟩
  else if !validateMagicBytes att.data mime then
    some ⟨s!"'{safeName}' content does not match its declared type '" ++ .ofList mime ++ "'.", 422⟩
  else if !validateExtMimeConsistency (safeStorageName att category) mime then
    some ⟨s!"'{safeName}' extension does not match its content type '" ++ .ofList mime ++ "'.", 422⟩
  else none

/-! ## Storing -/

section
variable (uploads sessionId : String)

/-- `_persist_attachment` -/
def persistAttachment (d : Uploads) (att : RawAttachment) (category : Category) :
    Uploads × Except AttachmentError Meta :=
  match checkAttachment att category with
  | some e => (d, .error e)
  | none =>
    -- the directory is made with the first file
    let made := d.getD .empty
    let safeName := safeStorageName att category
    let filename := dedupeUploadFilename (some made) safeName
    let path := uploads ++ "/" ++ .ofList filename
    (some (made.set filename (.file att.data)),
      .ok
        { filename
          path
          workspacePath := path
          originalName := htmlEscape safeName
          mediaType := mediaType att
          category
          url := "/api/agent/" ++ sessionId ++ "/uploads/" ++ .ofList filename
          source := att.source })

/-- The first pass over the attachments: those without a name are left out, the sizes are added up. -/
def selectAttachments : Nat → List RawAttachment → Except AttachmentError (List (RawAttachment × Category))
  | _, [] => .ok []
  | totalSize, att :: atts =>
    if att.filename = [] then selectAttachments totalSize atts
    else
      let category := (categorize att.filename att.contentType).getD .file
      let totalSize := totalSize + att.data.length
      if totalSize > globalSizeLimit then .error ⟨"Total upload size exceeds the global limit.", 413⟩
      else (selectAttachments totalSize atts).map ((att, category) :: ·)

/-- The second pass: each attachment is checked and written in turn. -/
def persistAll : Uploads → List (RawAttachment × Category) → Uploads × Except AttachmentError (List Meta)
  | d, [] => (d, .ok [])
  | d, (att, category) :: valid =>
    match persistAttachment uploads sessionId d att category with
    | (d, .error e) => (d, .error e)
    | (d, .ok metadata) =>
      match persistAll d valid with
      | (d, .error e) => (d, .error e)
      | (d, .ok metas) => (d, .ok (metadata :: metas))

/-- `validate_and_persist_attachments`, for the session id that was given or made. -/
def validateAndPersistAttachments (d : Uploads) (attachments : List RawAttachment) :
    Uploads × Except AttachmentError (String × List Meta) :=
  match selectAttachments 0 attachments with
  | .error e => (d, .error e)
  | .ok valid =>
    match persistAll uploads sessionId d valid with
    | (d, .error e) => (d, .error e)
    | (d, .ok metas) => (d, .ok (sessionId, metas))

end

/-! ## Serving -/

/-- An answer of the route that is no file. -/
structure HTTPException where
  statusCode : Nat
  detail : String
deriving DecidableEq

/-- `_safe_resolve`, for a name without separators. -/
def safeResolve (d : Uploads) (rel : List Char) : Except HTTPException (List UInt8) :=
  if rel.all pyIsSpace then .error ⟨400, "Empty media path."⟩
  else if rel[1]? = some ':' then .error ⟨400, "Absolute media paths rejected."⟩
  else
    match d.node? rel with
    | some (.file data) => .ok data
    | _ => .error ⟨404, "Media file not found."⟩

/-- `get_uploaded_file` -/
def getUploadedFile (d : Uploads) (filename : List Char) : Except HTTPException (List UInt8) :=
  if '/' ∈ filename ∨ '\\' ∈ filename ∨ filename = [] ∨ filename = ['.'] ∨ filename = ['.', '.'] then
    .error ⟨400, "Invalid upload filename."⟩
  else safeResolve d filename

end OpenAgentd.Upload
