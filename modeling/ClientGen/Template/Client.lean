import ClientGen.Template.Declarations

/-
  ClientGen.Template.Client — the template of `client.go`: the client itself, its options, and
  what the methods of every service call.
-/

namespace ClientGen.Template

def clientNodes : List Node := [
  .lines ["// Code generated by sdkgen. DO NOT EDIT.", "", "// Package "], .value ["package"],
  .text " is a client for ", .value ["title"], .text " ", .value ["version"], .text ".",
  .cond (.holds ["doc_lines"]) [
    .lines ["", "//"], docLinesBelow "" ["doc_lines"]] [],
  .lines ["", "package "], .value ["package"],
  .lines ["", "", "import (", "\t\"bytes\"", "\t\"context\"", "\t\"encoding/json\"", "\t\"fmt\"", "\t\"io\"",
    "\t\"net/http\"", "\t\"net/url\"", "\t\"strings\"", "\t\"time\"", ")", "",
    "// DefaultBaseURL is the first server listed by the API.", "const DefaultBaseURL = "],
  .value ["base_url"], .lines ["", "", "// Client calls the "], .value ["title"],
  .lines [" API.", "type Client struct \x7b", "\tBaseURL    string", "\tHTTPClient *http.Client",
    "\tUserAgent  string", ""],
  .each "service" ["services"] [
    .lines ["", "\t"], .value ["service", "name"], .text " *", .value ["service", "type_name"]],
  .lines ["", "\x7d", "", "// Option configures a Client.", "type Option func(*Client)", "",
    "// WithHTTPClient replaces http.DefaultClient.",
    "func WithHTTPClient(httpClient *http.Client) Option \x7b", "\treturn func(c *Client) \x7b",
    "\t\tc.HTTPClient = httpClient", "\t\x7d", "\x7d", "",
    "// WithUserAgent sets the User-Agent header sent with every request.",
    "func WithUserAgent(userAgent string) Option \x7b", "\treturn func(c *Client) \x7b",
    "\t\tc.UserAgent = userAgent", "\t\x7d", "\x7d", "",
    "// NewClient returns a client for baseURL. An empty baseURL selects DefaultBaseURL.",
    "func NewClient(baseURL string, opts ...Option) *Client \x7b", "\tif baseURL == \"\" \x7b",
    "\t\tbaseURL = DefaultBaseURL", "\t\x7d", "\tc := &Client\x7b",
    "\t\tBaseURL:    strings.TrimRight(baseURL, \"/\"),", "\t\tHTTPClient: http.DefaultClient,",
    "\t\tUserAgent:  "],
  .value ["user_agent"], .lines [",", "\t\x7d", "\tfor _, opt := range opts \x7b", "\t\topt(c)", "\t\x7d"],
  .each "service" ["services"] [
    .lines ["", "\tc."], .value ["service", "name"], .text " = &", .value ["service", "type_name"],
    .text "\x7bclient: c\x7d"],
  .lines ["", "\treturn c", "\x7d", "",
    "// APIError is returned for responses the API description does not cover.", "type APIError struct \x7b",
    "\tStatusCode int", "\tBody       []byte", "\x7d", "", "func (e *APIError) Error() string \x7b",
    "\treturn fmt.Sprintf(\"unexpected status %d: %s\", e.StatusCode, e.Body)", "\x7d", "",
    "type rawResponse struct \x7b", "\tStatusCode int", "\tBody       []byte", "\x7d", "",
    "func (c *Client) do(ctx context.Context, method, path string, query url.Values, body any) (rawResponse, error) \x7b",
    "\ttarget := c.BaseURL + path", "\tif len(query) > 0 \x7b", "\t\ttarget += \"?\" + query.Encode()",
    "\t\x7d", "", "\tvar reader io.Reader", "\tcontentType := \"\"", "\tswitch b := body.(type) \x7b",
    "\tcase nil:", "\tcase []byte:", "\t\treader = bytes.NewReader(b)",
    "\t\tcontentType = \"application/octet-stream\"", "\tdefault:", "\t\tdata, err := json.Marshal(b)",
    "\t\tif err != nil \x7b",
    "\t\t\treturn rawResponse\x7b\x7d, fmt.Errorf(\"encoding request body: %w\", err)", "\t\t\x7d",
    "\t\treader = bytes.NewReader(data)", "\t\tcontentType = \"application/json\"", "\t\x7d", "",
    "\treq, err := http.NewRequestWithContext(ctx, method, target, reader)", "\tif err != nil \x7b",
    "\t\treturn rawResponse\x7b\x7d, err", "\t\x7d", "\treq.Header.Set(\"Accept\", \"application/json\")",
    "\tif contentType != \"\" \x7b", "\t\treq.Header.Set(\"Content-Type\", contentType)", "\t\x7d",
    "\tif c.UserAgent != \"\" \x7b", "\t\treq.Header.Set(\"User-Agent\", c.UserAgent)", "\t\x7d", "",
    "\tresp, err := c.HTTPClient.Do(req)", "\tif err != nil \x7b", "\t\treturn rawResponse\x7b\x7d, err",
    "\t\x7d", "\tdefer resp.Body.Close()", "", "\tdata, err := io.ReadAll(resp.Body)", "\tif err != nil \x7b",
    "\t\treturn rawResponse\x7b\x7d, err", "\t\x7d",
    "\treturn rawResponse\x7bStatusCode: resp.StatusCode, Body: data\x7d, nil", "\x7d", "",
    "func decodeJSON(data []byte, out any) error \x7b",
    "\tif err := json.Unmarshal(data, out); err != nil \x7b",
    "\t\treturn fmt.Errorf(\"decoding response: %w\", err)", "\t\x7d", "\treturn nil", "\x7d", "",
    "func pathParam(value any) string \x7b", "\tif t, ok := value.(time.Time); ok \x7b",
    "\t\treturn url.PathEscape(t.Format(time.RFC3339))", "\t\x7d",
    "\treturn url.PathEscape(fmt.Sprint(value))", "\x7d", ""]]

end ClientGen.Template
