import Switchboard.Json.Basic
import Switchboard.Text.Blank
import Switchboard.Text.Numeral
/-!
# Settings

What the service reads from its environment.
-/
namespace Switchboard

structure Settings where
  port : Int
  baseUrl : String
  adminUrl : String
  environment : String
  logLevel : String
  databaseUrl : String
  accountSid : String
  authToken : String
  phoneNumber : String
  speechKey : String
  speechModel : String
  transcriptionModel : String
  mediaDir : String
  mediaBaseUrl : String
  jwtSecret : String
  apiKey : String
  monitoringDsn : String
  deriving DecidableEq, Repr

namespace Settings

def isProduction (s : Settings) : Bool := s.environment = "production"

/-- The secret that tokens are signed with where none is set. -/
def defaultSecret : String := "callflow-secret-change-me"

def withoutSlashes (s : String) : String := Text.trimEnd (· = '/') s

/-- The settings of an environment; none where the port is not a number. -/
def ofEnvironment (env : String → Option String) : Option Settings := do
  let read (key : String) (default : String) : String := (env key).getD default
  let port ← Text.int? (read "PORT" "8080")
  let baseUrl := withoutSlashes (read "BASE_URL" "")
  let environment := read "ENVIRONMENT" "development"
  return {
    port
    baseUrl
    adminUrl := read "ADMIN_URL" ""
    environment
    logLevel := read "LOG_LEVEL" (if environment = "production" then "INFO" else "DEBUG")
    databaseUrl := read "DATABASE_URL" ""
    accountSid := read "TWILIO_ACCOUNT_SID" ""
    authToken := read "TWILIO_AUTH_TOKEN" ""
    phoneNumber := read "TWILIO_PHONE_NUMBER" ""
    speechKey := read "OPENAI_API_KEY" ""
    speechModel := read "TTS_MODEL" "gpt-4o-mini-tts"
    transcriptionModel := read "TRANSCRIPTION_MODEL" "gpt-4o-transcribe-diarize"
    mediaDir := read "MEDIA_DIR" "media"
    mediaBaseUrl := withoutSlashes (read "MEDIA_BASE_URL" (baseUrl ++ "/media"))
    jwtSecret := read "JWT_SECRET" defaultSecret
    apiKey := read "API_KEY" ""
    monitoringDsn := read "SENTRY_DSN" ""
  }

def lacksSecret (s : Settings) : Bool := s.isProduction && s.jwtSecret = defaultSecret

/-- What is said where a production service lacks a secret of its own. -/
def secretRequired : String := "JWT_SECRET environment variable is required in production"

def toFields (s : Settings) : List (String × Json) :=
  [("port", .int s.port), ("base_url", .str s.baseUrl), ("admin_url", .str s.adminUrl), ("environment", .str s.environment),
   ("log_level", .str s.logLevel), ("database_url", .str s.databaseUrl), ("twilio_account_sid", .str s.accountSid),
   ("twilio_auth_token", .str s.authToken), ("twilio_phone_number", .str s.phoneNumber), ("openai_api_key", .str s.speechKey),
   ("tts_model", .str s.speechModel), ("transcription_model", .str s.transcriptionModel), ("media_dir", .str s.mediaDir),
   ("media_base_url", .str s.mediaBaseUrl), ("jwt_secret", .str s.jwtSecret), ("api_key", .str s.apiKey),
   ("sentry_dsn", .str s.monitoringDsn)]

def withFields (v : Json) (s : Settings) : Settings :=
  let text (key old : String) : String := ((v.getD key).str?).getD old
  { port := ((v.getD "port").int?).getD s.port
    baseUrl := text "base_url" s.baseUrl
    adminUrl := text "admin_url" s.adminUrl
    environment := text "environment" s.environment
    logLevel := text "log_level" s.logLevel
    databaseUrl := text "database_url" s.databaseUrl
    accountSid := text "twilio_account_sid" s.accountSid
    authToken := text "twilio_auth_token" s.authToken
    phoneNumber := text "twilio_phone_number" s.phoneNumber
    speechKey := text "openai_api_key" s.speechKey
    speechModel := text "tts_model" s.speechModel
    transcriptionModel := text "transcription_model" s.transcriptionModel
    mediaDir := text "media_dir" s.mediaDir
    mediaBaseUrl := text "media_base_url" s.mediaBaseUrl
    jwtSecret := text "jwt_secret" s.jwtSecret
    apiKey := text "api_key" s.apiKey
    monitoringDsn := text "sentry_dsn" s.monitoringDsn }

def unset : Settings where
  port := 8080
  baseUrl := ""
  adminUrl := ""
  environment := "development"
  logLevel := "DEBUG"
  databaseUrl := ""
  accountSid := ""
  authToken := ""
  phoneNumber := ""
  speechKey := ""
  speechModel := "gpt-4o-mini-tts"
  transcriptionModel := "gpt-4o-transcribe-diarize"
  mediaDir := "media"
  mediaBaseUrl := "/media"
  jwtSecret := defaultSecret
  apiKey := ""
  monitoringDsn := ""

end Settings

end Switchboard
